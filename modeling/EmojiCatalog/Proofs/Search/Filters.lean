import EmojiCatalog.Proofs.Search.Blocks
/-!
What filters do to a search.

A filter selects by looking names up, before anything is compared or ranked.  In a catalog that was
built a lookup finds what is listed under the name, so the scopes that the filters leave are those
of the whole catalog under the names that they ask for (`Catalog.selectScopes_of_known`).  The hits
of these scopes are the hits under these names, and it makes no difference whether hits are left out
before or after the ranking (`rank_filter`).  Only the limit has to come last.

A search fails exactly if a lookup does: that of a category which the catalog does not list, or else
that of a subcategory which none of the selected categories lists.
-/

namespace EmojiCatalog

namespace Query

variable (q : Query) (c : Catalog)

/-- Whether the filters of a query leave what stands under two names. -/
def admits (category subcategory : String) : Bool :=
  q.category.all (category == ·) && q.subcategory.all (subcategory == ·)

/-- The categories of a catalog that the category filter leaves. -/
def selected : List Category := c.categories.filter fun x => q.category.all (x.name == ·)

theorem selected_subset : q.selected c ⊆ c.categories := List.filter_subset_self _

/-- The category filter, if there is one, names a category of the catalog. -/
def CategoryKnown : Prop := ∀ name, q.category = some name → name ∈ c.categories.map (·.name)

/-- The subcategory filter, if there is one, names a subcategory of a selected category. -/
def SubcategoryKnown : Prop :=
  ∀ name, q.subcategory = some name → ∃ x ∈ q.selected c, name ∈ x.subcategories.map (·.name)

end Query

/-! ### Scopes by name -/

/-- The scopes of the categories with certain names are the scopes under these names. -/
theorem scopesOf_filter (p : String → Bool) (categories : List Category) :
    scopesOf (categories.filter (p ·.name)) = (scopesOf categories).filter (p ·.category) := by
  refine (filter_flatMap_eq (fun x s hs => ?_) categories).symm
  obtain ⟨_, -, rfl⟩ := List.mem_map.mp hs
  rfl

/-- The hits under certain names are those of the scopes under these names. -/
theorem filter_flatMap_hits (p : String → String → Bool) (needle : List Char)
    (scopes : List Scope) :
    (scopes.flatMap (·.hits needle)).filter (fun x => p x.category x.subcategory)
      = (scopes.filter fun s => p s.category s.subcategory.name).flatMap (·.hits needle) := by
  refine filter_flatMap_eq (fun s x hx => ?_) scopes
  obtain ⟨_, -, rfl⟩ := List.mem_map.mp hx
  rfl

namespace Catalog

variable {rows : List Row} {c : Catalog} {q : Query} {name : String}

/-- Looking a subcategory up in several categories leaves the scopes of its name. -/
theorem scopesNamed_eq (h : build rows = .ok c) {categories : List Category}
    (hsub : categories ⊆ c.categories) (name : String) :
    scopesNamed name categories = (scopesOf categories).filter (·.subcategory.name == name) := by
  rw [scopesNamed, scopesOf, List.filterMap_eq_flatMap_toList, List.filter_flatMap]
  refine List.flatMap_congr fun category hmem => ?_
  have hlookup := toList_subcategory? h (hsub hmem) name
  rw [List.filter_map, Option.toList_map, hlookup]
  rfl

theorem scopesNamed_eq_nil_iff (h : build rows = .ok c) {categories : List Category}
    (hsub : categories ⊆ c.categories) :
    scopesNamed name categories = []
      ↔ ∀ x ∈ categories, name ∉ x.subcategories.map (·.name) := by
  rw [scopesNamed, List.filterMap_eq_nil_iff]
  refine forall₂_congr fun x hx => ?_
  rw [Option.map_eq_none_iff, ← Option.toList_eq_nil_iff, toList_subcategory? h (hsub hx),
    List.filter_eq_nil_iff]
  simp

/-! ### What the filters select -/

theorem selectCategories_of_known (h : build rows = .ok c) (hknown : q.CategoryKnown c) :
    c.selectCategories q.category = .ok (q.selected c) := by
  rw [Query.selected]
  cases hq : q.category with
  | none =>
    simp only [Option.all_none, List.filter_true]
    rfl
  | some name =>
    obtain ⟨x, hx, rfl⟩ := List.mem_map.mp (hknown name hq)
    simp only [Option.all_some, filter_key_eq_singleton (nodup_names_of_build h) hx,
      selectCategories, category, category?_of_mem h hx]
    rfl

theorem selectScopes_of_unknown_category (h : build rows = .ok c) (hq : q.category = some name)
    (hname : name ∉ c.categories.map (·.name)) :
    c.selectScopes q = .error (.notFound .category name) := by
  simp only [selectScopes, hq, selectCategories, category, (category?_eq_none_iff h).mpr hname]
  rfl

theorem selectScopes_of_unknown_subcategory (h : build rows = .ok c) (hknown : q.CategoryKnown c)
    (hq : q.subcategory = some name)
    (hname : ∀ x ∈ q.selected c, name ∉ x.subcategories.map (·.name)) :
    c.selectScopes q = .error (.notFound .subcategory name) := by
  have hnone := (scopesNamed_eq_nil_iff h (q.selected_subset c)).mpr hname
  simp only [selectScopes, selectCategories_of_known h hknown, hq, bind, Except.bind, hnone]

/-- The filters leave the scopes under the names that they ask for. -/
theorem selectScopes_of_known (h : build rows = .ok c) (hcategory : q.CategoryKnown c)
    (hsubcategory : q.SubcategoryKnown c) :
    c.selectScopes q
      = .ok ((scopesOf c.categories).filter fun s => q.admits s.category s.subcategory.name) := by
  have hselected : scopesOf (q.selected c)
      = (scopesOf c.categories).filter fun s => q.category.all (s.category == ·) :=
    scopesOf_filter (fun name => q.category.all (name == ·)) c.categories
  simp only [selectScopes, selectCategories_of_known h hcategory, bind, Except.bind]
  cases hq : q.subcategory with
  | none =>
    simp only [hselected, Query.admits, hq, Option.all_none, Bool.and_true]
    rfl
  | some name =>
    have hscopes : scopesNamed name (q.selected c)
        = (scopesOf c.categories).filter fun s => q.admits s.category s.subcategory.name := by
      rw [scopesNamed_eq h (q.selected_subset c), hselected, List.filter_filter]
      simp only [Query.admits, hq, Option.all_some, Bool.and_comm]
    have hne : scopesNamed name (q.selected c) ≠ [] := by
      rw [Ne, scopesNamed_eq_nil_iff h (q.selected_subset c)]
      obtain ⟨x, hx, hname⟩ := hsubcategory name hq
      exact fun hnone => hnone x hx hname
    obtain ⟨s, scopes, hcons⟩ := List.exists_cons_of_ne_nil hne
    rw [← hscopes]
    simp only [hcons]
    rfl

/-! ### Searching what is selected -/

/-- What is found under the filters is what is found without them, under the names that they ask
for. -/
theorem search_of_known (h : build rows = .ok c) (hcategory : q.CategoryKnown c)
    (hsubcategory : q.SubcategoryKnown c) (htext : q.text ≠ "") :
    ∃ all, c.search { text := q.text } = .ok all ∧
      c.search q = .ok (cut q.limit (all.filter fun x => q.admits x.category x.subcategory)) := by
  let needle := Text.lowercaseChars q.text.toList
  let found := (scopesOf c.categories).filter (nameMatches needle ·.subcategory.name)
  refine ⟨rank (found.flatMap (Scope.hits needle)), c.search_unfiltered htext 0, ?_⟩
  have hempty : q.text.isEmpty = false := by simpa using htext
  rw [← rank_filter, filter_flatMap_hits q.admits, List.filter_comm]
  simp only [search, selectScopes_of_known h hcategory hsubcategory, bind, Except.bind, hempty,
    Bool.false_eq_true, if_false]
  rfl

theorem search_of_empty (h : build rows = .ok c) (hcategory : q.CategoryKnown c)
    (hsubcategory : q.SubcategoryKnown c) (htext : q.text = "") : c.search q = .ok [] := by
  simp only [search, selectScopes_of_known h hcategory hsubcategory, htext]
  rfl

theorem search_of_selectScopes_eq_error {f : Fault} (h : c.selectScopes q = .error f) :
    c.search q = .error f := by
  simp only [search, h]
  rfl

/-- A search fails by its category filter, or else by its subcategory filter, or not at all. -/
theorem search_cases (h : build rows = .ok c) (q : Query) :
    (∃ name, q.category = some name ∧ name ∉ c.categories.map (·.name) ∧
      c.search q = .error (.notFound .category name)) ∨
    (q.CategoryKnown c ∧ ∃ name, q.subcategory = some name ∧
      (∀ x ∈ q.selected c, name ∉ x.subcategories.map (·.name)) ∧
      c.search q = .error (.notFound .subcategory name)) ∨
    (q.CategoryKnown c ∧ q.SubcategoryKnown c ∧ ∃ hits, c.search q = .ok hits) := by
  by_cases hcategory : q.CategoryKnown c
  · by_cases hsubcategory : q.SubcategoryKnown c
    · refine .inr (.inr ⟨hcategory, hsubcategory, ?_⟩)
      by_cases htext : q.text = ""
      · exact ⟨[], search_of_empty h hcategory hsubcategory htext⟩
      · obtain ⟨all, -, hall⟩ := search_of_known h hcategory hsubcategory htext
        exact ⟨_, hall⟩
    · obtain ⟨name, hq, hname⟩ : ∃ name, q.subcategory = some name ∧
          ∀ x ∈ q.selected c, name ∉ x.subcategories.map (·.name) := by
        simpa [Query.SubcategoryKnown] using hsubcategory
      exact .inr (.inl ⟨hcategory, name, hq, hname, search_of_selectScopes_eq_error
        (selectScopes_of_unknown_subcategory h hcategory hq hname)⟩)
  · obtain ⟨name, hq, hname⟩ : ∃ name, q.category = some name ∧
        name ∉ c.categories.map (·.name) := by
      simpa [Query.CategoryKnown] using hcategory
    exact .inl ⟨name, hq, hname, search_of_selectScopes_eq_error
      (selectScopes_of_unknown_category h hq hname)⟩

end Catalog

/-! ### The result -/

/-- **Filters restrict a search, and only they can fail.**

* A search fails with an unknown category exactly if it asks for one that the catalog does not list.
* Otherwise it fails with an unknown subcategory exactly if it asks for one that no selected
  category lists.
* Otherwise it succeeds.  An empty text finds nothing.  Any other finds what it finds without
  filters and limit, as far as it stands under the names that are asked for, in the same order and
  with the same relevance, and cut off at the limit. -/
theorem filters_restrict_search {rows : List Row} {c : Catalog} (hc : Catalog.build rows = .ok c)
    (q : Query) :
    let unknownCategory (name : String) : Prop :=
      q.category = some name ∧ name ∉ c.categories.map (·.name)
    let selected := c.categories.filter fun x => q.category.all (x.name == ·)
    let unknownSubcategory (name : String) : Prop :=
      q.subcategory = some name ∧ ∀ x ∈ selected, name ∉ x.subcategories.map (·.name)
    (∀ name, c.search q = .error (.notFound .category name) ↔ unknownCategory name) ∧
    (∀ name, c.search q = .error (.notFound .subcategory name) ↔
      (∀ category, ¬unknownCategory category) ∧ unknownSubcategory name) ∧
    ((∀ name, ¬unknownCategory name) → (∀ name, ¬unknownSubcategory name) →
      (q.text = "" → c.search q = .ok []) ∧
      (q.text ≠ "" → ∃ all, c.search { text := q.text } = .ok all ∧
        let kept := all.filter fun x =>
          q.category.all (x.category == ·) && q.subcategory.all (x.subcategory == ·)
        c.search q = .ok (if q.limit = 0 then kept else kept.take q.limit))) := by
  intro unknownCategory selected unknownSubcategory
  have hcategory : (∀ name, ¬unknownCategory name) ↔ q.CategoryKnown c := by
    simp only [unknownCategory, Query.CategoryKnown, not_and_not_right]
  have hsubcategory : (∀ name, ¬unknownSubcategory name) ↔ q.SubcategoryKnown c := by
    refine forall_congr' fun name => ?_
    simp only [unknownSubcategory, Query.selected, selected, not_and, not_forall, not_not,
      exists_prop]
  refine ⟨fun name => ⟨fun h => ?_, ?_⟩, fun name => ⟨fun h => ?_, ?_⟩, fun hcat hsub => ?_⟩
  · obtain ⟨name', hq, hname, hs⟩ | ⟨-, name', -, -, hs⟩ | ⟨-, -, hits, hs⟩ := c.search_cases hc q
    · cases hs.symm.trans h
      exact ⟨hq, hname⟩
    · cases hs.symm.trans h
    · cases hs.symm.trans h
  · rintro ⟨hq, hname⟩
    exact Catalog.search_of_selectScopes_eq_error
      (Catalog.selectScopes_of_unknown_category hc hq hname)
  · obtain ⟨name', -, -, hs⟩ | ⟨hknown, name', hq, hname, hs⟩ | ⟨-, -, hits, hs⟩ :=
      c.search_cases hc q
    · cases hs.symm.trans h
    · cases hs.symm.trans h
      exact ⟨hcategory.mpr hknown, hq, hname⟩
    · cases hs.symm.trans h
  · rintro ⟨hknown, hq, hname⟩
    exact Catalog.search_of_selectScopes_eq_error
      (Catalog.selectScopes_of_unknown_subcategory hc (hcategory.mp hknown) hq hname)
  · exact ⟨Catalog.search_of_empty hc (hcategory.mp hcat) (hsubcategory.mp hsub),
      Catalog.search_of_known hc (hcategory.mp hcat) (hsubcategory.mp hsub)⟩

/-- One name in two categories is found in both, and cut off behind the first two hits. -/
theorem filters_restrict_search_tools :
    Catalog.build Catalog.toolRows = .ok Catalog.tools ∧
      Catalog.tools.search { text := "", category := some "c", subcategory := some "tools" }
        = .error (.notFound .category "c") ∧
      Catalog.tools.search { text := "tool", category := some "b", subcategory := some "toys" }
        = .error (.notFound .subcategory "toys") ∧
      Catalog.tools.search { text := "Tool", subcategory := some "tools", limit := 2 }
        = .ok [⟨"t1", "a", "tools", 95⟩, ⟨"t2", "a", "tools", 95⟩] := by
  have hbuild : Catalog.build Catalog.toolRows = .ok Catalog.tools := rfl
  refine ⟨hbuild, ?_, ?_, ?_⟩
  · obtain ⟨hcategory, -⟩ := filters_restrict_search hbuild
      { text := "", category := some "c", subcategory := some "tools" }
    exact (hcategory "c").mpr ⟨rfl, by decide⟩
  · obtain ⟨-, hsubcategory, -⟩ := filters_restrict_search hbuild
      { text := "tool", category := some "b", subcategory := some "toys" }
    refine (hsubcategory "toys").mpr ⟨?_, rfl, by decide⟩
    rintro name ⟨hname, hnot⟩
    cases hname
    exact hnot (by decide)
  · obtain ⟨-, -, hfound⟩ := filters_restrict_search hbuild
      { text := "Tool", subcategory := some "tools", limit := 2 }
    obtain ⟨-, hall⟩ := hfound (by rintro name ⟨hname, -⟩; cases hname) (by
      rintro name ⟨hname, hnone⟩
      cases hname
      exact hnone _ List.mem_cons_self (by decide))
    obtain ⟨all, hsearch, hkept⟩ := hall (by decide)
    have hranking : all = [⟨"e1", "b", "tool", 116⟩, ⟨"e2", "b", "tool", 116⟩,
        ⟨"t1", "a", "tools", 95⟩, ⟨"t2", "a", "tools", 95⟩, ⟨"u1", "b", "tools", 95⟩] := by
      rw [Catalog.tools.search_unfiltered (by decide)] at hsearch
      exact (Except.ok.inj hsearch).symm.trans ((ranked_rank _).unique (by decide))
    rw [hkept, hranking]
    rfl

end EmojiCatalog
