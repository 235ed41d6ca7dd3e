import EmojiCatalog.Proofs.Catalog.Lookup
import Mathlib.Data.Set.Function
/-!
What the parts of a catalog say of each other.

A catalog keeps what it holds in several places: the lists of its two levels, an index beside each
list, a size, and entries that are read off the lists.  In a catalog that was built they agree
(`Catalog.Agrees`), because the names on each level differ.  An index is the inverse of its list, so
a place that it gives is in range and has the node of the name; a lookup succeeds exactly for what
is listed; and an entry is known by the two names and the position under which its item is found.

The entries are compared with the lookups through the lists: `mem_entries_iff` says which entries
the lists give, `items_eq_ok_iff` which items a lookup finds there.  Categories and subcategories
without items are listed and found, but give no entries.
-/

namespace EmojiCatalog

variable {rows : List Row} {c : Catalog} {category : Category} {s : Subcategory} {e : Entry}
  {name sub : String} {i : Nat} {items : List String} {f : Fault}

/-- Where the item of an entry stands. -/
def Entry.place (e : Entry) : String × String × Nat := (e.category, e.subcategory, e.position)

namespace Catalog

/-! ### Indices -/

theorem getElem?_index_iff (h : build rows = .ok c) :
    c.index[name]? = some i ↔ (c.categories[i]?).map (·.name) = some name := by
  rw [index_of_build h, NameIndex.getElem?_eq_some_iff (nodup_names_of_build h), List.getElem?_map]

theorem getElem?_index_category_iff (h : build rows = .ok c) (hmem : category ∈ c.categories) :
    category.index[name]? = some i
      ↔ (category.subcategories[i]?).map (·.name) = some name := by
  rw [index_category_of_build h hmem,
    NameIndex.getElem?_eq_some_iff (nodup_subcategories_of_build h hmem), List.getElem?_map]

/-! ### Lookups -/

/-- A lookup that comes to a search finds the elements under the name. -/
theorem eq_some_iff_of_toList {α : Type} {found : Option α} {xs : List α} {key : α → String}
    (hnodup : (xs.map key).Nodup) (h : found.toList = xs.filter (key · == name)) {x : α} :
    found = some x ↔ x ∈ xs ∧ key x = name := by
  constructor
  · rintro rfl
    have hx : x ∈ xs.filter (key · == name) := by rw [← h]; exact List.mem_singleton_self x
    exact (List.mem_filter.mp hx).imp_right beq_iff_eq.mp
  · rintro ⟨hx, rfl⟩
    rw [← Option.toList_eq_singleton_iff, h, filter_key_eq_singleton hnodup hx]

theorem category?_eq_some_iff (h : build rows = .ok c) :
    c.category? name = some category ↔ category ∈ c.categories ∧ category.name = name :=
  eq_some_iff_of_toList (nodup_names_of_build h) (toList_category? h name)

theorem subcategory?_eq_some_iff (h : build rows = .ok c) (hmem : category ∈ c.categories) :
    category.subcategory? name = some s ↔ s ∈ category.subcategories ∧ s.name = name :=
  eq_some_iff_of_toList (nodup_subcategories_of_build h hmem) (toList_subcategory? h hmem name)

theorem subcategory?_eq_none_iff (h : build rows = .ok c) (hmem : category ∈ c.categories) :
    category.subcategory? name = none ↔ name ∉ category.subcategories.map (·.name) := by
  rw [← Option.toList_eq_nil_iff, toList_subcategory? h hmem, List.filter_eq_nil_iff]
  simp

theorem category_eq_ok_iff (h : build rows = .ok c) :
    c.category name = .ok category ↔ category ∈ c.categories ∧ category.name = name := by
  rw [← category?_eq_some_iff h, Catalog.category]
  cases c.category? name with
  | none => exact ⟨nofun, nofun⟩
  | some found => simp only [Except.ok.injEq, Option.some.injEq]

theorem category_eq_error_iff (h : build rows = .ok c) :
    c.category name = .error f
      ↔ name ∉ c.categories.map (·.name) ∧ f = .notFound .category name := by
  rw [← category?_eq_none_iff h, Catalog.category]
  cases c.category? name with
  | none => simp [eq_comm]
  | some found => simp

/-! A lookup of items is one of the category and, where that succeeds, one of the subcategory. -/

theorem items_of_error (hcategory : c.category name = .error f) : c.items name sub = .error f := by
  rw [Catalog.items, hcategory]
  rfl

theorem items_of_none (hcategory : c.category name = .ok category)
    (hsub : category.subcategory? sub = none) :
    c.items name sub = .error (.notFound .subcategory sub) := by
  simp only [Catalog.items, hcategory, bind, Except.bind, hsub]

theorem items_of_some (hcategory : c.category name = .ok category)
    (hsub : category.subcategory? sub = some s) : c.items name sub = .ok s.items := by
  simp only [Catalog.items, hcategory, bind, Except.bind, hsub]

/-- Items are found exactly if their subcategory is listed in their category. -/
theorem items_eq_ok_iff (h : build rows = .ok c) :
    c.items name sub = .ok items ↔ ∃ category ∈ c.categories, category.name = name ∧
      ∃ s ∈ category.subcategories, s.name = sub ∧ s.items = items := by
  constructor
  · intro hok
    cases hcategory : c.category name with
    | error f => cases (items_of_error hcategory).symm.trans hok
    | ok category =>
      obtain ⟨hmem, hname⟩ := (category_eq_ok_iff h).mp hcategory
      cases hsub : category.subcategory? sub with
      | none => cases (items_of_none hcategory hsub).symm.trans hok
      | some s =>
        obtain ⟨hs, hsname⟩ := (subcategory?_eq_some_iff h hmem).mp hsub
        cases (items_of_some hcategory hsub).symm.trans hok
        exact ⟨category, hmem, hname, s, hs, hsname, rfl⟩
  · rintro ⟨category, hmem, rfl, s, hs, rfl, rfl⟩
    exact items_of_some ((category_eq_ok_iff h).mpr ⟨hmem, rfl⟩)
      ((subcategory?_eq_some_iff h hmem).mpr ⟨hs, rfl⟩)

/-- An unknown category is reported before an unknown subcategory. -/
theorem items_eq_error_iff (h : build rows = .ok c) :
    c.items name sub = .error f ↔
      (name ∉ c.categories.map (·.name) ∧ f = .notFound .category name) ∨
      ∃ category ∈ c.categories, category.name = name ∧
        sub ∉ category.subcategories.map (·.name) ∧ f = .notFound .subcategory sub := by
  constructor
  · intro herror
    cases hcategory : c.category name with
    | error f' =>
      cases (items_of_error hcategory).symm.trans herror
      exact .inl ((category_eq_error_iff h).mp hcategory)
    | ok category =>
      obtain ⟨hmem, hname⟩ := (category_eq_ok_iff h).mp hcategory
      cases hsub : category.subcategory? sub with
      | some s => cases (items_of_some hcategory hsub).symm.trans herror
      | none =>
        cases (items_of_none hcategory hsub).symm.trans herror
        exact .inr ⟨category, hmem, hname, (subcategory?_eq_none_iff h hmem).mp hsub, rfl⟩
  · rintro (⟨hname, rfl⟩ | ⟨category, hmem, rfl, hsub, rfl⟩)
    · exact items_of_error ((category_eq_error_iff h).mpr ⟨hname, rfl⟩)
    · exact items_of_none ((category_eq_ok_iff h).mpr ⟨hmem, rfl⟩)
        ((subcategory?_eq_none_iff h hmem).mpr hsub)

/-! ### Entries -/

theorem mem_entries_iff (c : Catalog) :
    e ∈ c.entries ↔ ∃ category ∈ c.categories, category.name = e.category ∧
      ∃ s ∈ category.subcategories, s.name = e.subcategory ∧
        s.items[e.position]? = some e.item := by
  simp only [entries, Category.entries, Subcategory.entries, List.mem_flatMap, List.mem_map]
  constructor
  · rintro ⟨category, hmem, s, hs, ⟨item, position⟩, hitem, rfl⟩
    exact ⟨category, hmem, rfl, s, hs, rfl, List.mem_zipIdx_iff_getElem?.mp hitem⟩
  · rintro ⟨category, hmem, hname, s, hs, hsname, hitem⟩
    refine ⟨category, hmem, s, hs, (e.item, e.position), ?_, ?_⟩
    · exact List.mem_zipIdx_iff_getElem?.mpr hitem
    · rw [hname, hsname]

/-- An entry is an item that a lookup finds, under the names and the position of the entry. -/
theorem mem_entries_iff_items (h : build rows = .ok c) :
    e ∈ c.entries ↔ ∃ items, c.items e.category e.subcategory = .ok items ∧
      items[e.position]? = some e.item := by
  simp only [items_eq_ok_iff h]
  rw [mem_entries_iff]
  constructor
  · rintro ⟨category, hmem, hname, s, hs, hsname, hitem⟩
    exact ⟨s.items, ⟨category, hmem, hname, s, hs, hsname, rfl⟩, hitem⟩
  · rintro ⟨_, ⟨category, hmem, hname, s, hs, hsname, rfl⟩, hitem⟩
    exact ⟨category, hmem, hname, s, hs, hsname, hitem⟩

theorem nodup_entries_subcategory (name : String) (s : Subcategory) :
    (s.entries name).Nodup := by
  rw [Subcategory.entries]
  refine List.Nodup.map_on (fun p hp q hq hpq => ?_) ?_
  · obtain ⟨-, -, hitem, hposition⟩ := Entry.mk.inj hpq
    exact Prod.ext hitem hposition
  · refine List.Nodup.of_map Prod.snd ?_
    rw [List.zipIdx_map_snd]
    exact List.nodup_range'

/-- No entry is listed twice. -/
theorem nodup_entries_of_build (h : build rows = .ok c) : c.entries.Nodup := by
  rw [entries, List.nodup_flatMap]
  constructor
  · intro category hmem
    rw [Category.entries, List.nodup_flatMap]
    refine ⟨fun s _ => nodup_entries_subcategory category.name s, ?_⟩
    refine (List.pairwise_map.mp (nodup_subcategories_of_build h hmem)).imp ?_
    intro s t hne e hs ht
    obtain ⟨_, -, rfl⟩ := List.mem_map.mp hs
    obtain ⟨_, -, heq⟩ := List.mem_map.mp ht
    exact hne (Entry.mk.inj heq).2.1.symm
  · refine (List.pairwise_map.mp (nodup_names_of_build h)).imp ?_
    intro x y hne e hx hy
    exact hne ((Category.category_of_mem_entries hx).symm.trans
      (Category.category_of_mem_entries hy))

/-- The places of the entries are those at which a lookup finds an item. -/
theorem bijOn_place_entries (h : build rows = .ok c) :
    Set.BijOn Entry.place {e | e ∈ c.entries}
      {p | ∃ items, c.items p.1 p.2.1 = .ok items ∧ p.2.2 < items.length} := by
  refine ⟨?_, ?_, ?_⟩
  · intro e he
    obtain ⟨items, hitems, hitem⟩ := (mem_entries_iff_items h).mp he
    exact ⟨items, hitems, (List.getElem?_eq_some_iff.mp hitem).1⟩
  · intro e he e' he' hplace
    obtain ⟨items, hitems, hitem⟩ := (mem_entries_iff_items h).mp he
    obtain ⟨items', hitems', hitem'⟩ := (mem_entries_iff_items h).mp he'
    obtain ⟨hcategory, hrest⟩ := Prod.mk.inj hplace
    obtain ⟨hsub, hposition⟩ := Prod.mk.inj hrest
    rw [hcategory, hsub, hitems'] at hitems
    obtain rfl := Except.ok.inj hitems
    rw [hposition, hitem'] at hitem
    have hsame : e.item = e'.item := (Option.some.inj hitem).symm
    cases e
    cases e'
    exact Entry.mk.injEq .. |>.mpr ⟨hcategory, hsub, hsame, hposition⟩
  · rintro ⟨name, sub, position⟩ ⟨items, hitems, hlt⟩
    refine ⟨⟨name, sub, items[position], position⟩, ?_, rfl⟩
    exact (mem_entries_iff_items h).mpr ⟨items, hitems, List.getElem?_eq_getElem hlt⟩

/-! ### Sizes -/

theorem size_eq_sumOf_itemCount (h : build rows = .ok c) :
    c.size = sumOf (·.itemCount) c.categories := by
  rw [eq_of_build h]
  rfl

theorem isEmpty_iff (h : build rows = .ok c) : c.isEmpty = true ↔ c.entries = [] := by
  rw [isEmpty, beq_iff_eq, size_eq_of_build h, List.length_eq_zero_iff]

/-! ### The result -/

/-- The parts of a catalog agree with each other. -/
structure Agrees (c : Catalog) : Prop where
  /-- The index of the categories is the inverse of their list, so its places are in range. -/
  index_iff : ∀ (name : String) (i : Nat),
    c.index[name]? = some i ↔ (c.categories[i]?).map (·.name) = some name
  /-- So is the index of the subcategories in every category. -/
  index_category_iff : ∀ category ∈ c.categories, ∀ (name : String) (i : Nat),
    category.index[name]? = some i ↔ (category.subcategories[i]?).map (·.name) = some name
  /-- A category is found exactly if it is listed, under its own name. -/
  category_ok_iff : ∀ name category,
    c.category name = .ok category ↔ category ∈ c.categories ∧ category.name = name
  category_error_iff : ∀ name f,
    c.category name = .error f
      ↔ name ∉ c.categories.map (·.name) ∧ f = .notFound .category name
  /-- So is a subcategory of a category. -/
  subcategory_iff : ∀ category ∈ c.categories, ∀ name s,
    category.subcategory? name = some s ↔ s ∈ category.subcategories ∧ s.name = name
  /-- Items are found exactly if the category lists the subcategory. -/
  items_ok_iff : ∀ name sub items,
    c.items name sub = .ok items ↔ ∃ category ∈ c.categories, category.name = name ∧
      ∃ s ∈ category.subcategories, s.name = sub ∧ s.items = items
  /-- A category that is not listed is reported first. -/
  items_error_iff : ∀ name sub f,
    c.items name sub = .error f ↔
      (name ∉ c.categories.map (·.name) ∧ f = .notFound .category name) ∨
      ∃ category ∈ c.categories, category.name = name ∧
        sub ∉ category.subcategories.map (·.name) ∧ f = .notFound .subcategory sub
  /-- The size counts the entries, and the items of all categories. -/
  size_eq_length : c.size = c.entries.length
  size_eq_sum : c.size = sumOf (·.itemCount) c.categories
  isEmpty_iff : c.isEmpty = true ↔ c.entries = []
  /-- The entries are listed once each, and their places are those of the items. -/
  nodup_entries : c.entries.Nodup
  bijOn_place : Set.BijOn Entry.place {e | e ∈ c.entries}
    {p | ∃ items, c.items p.1 p.2.1 = .ok items ∧ p.2.2 < items.length}
  /-- The item of an entry is the one at its place. -/
  item_of_mem : ∀ e ∈ c.entries, ∃ items, c.items e.category e.subcategory = .ok items ∧
    items[e.position]? = some e.item

/-- **The parts of a catalog agree**, whatever rows it was built from; those of the empty catalog do
as well. -/
theorem parts_agree (c : Catalog) (hc : c = .empty ∨ ∃ rows, build rows = .ok c) : c.Agrees := by
  have hbuilt : ∃ rows, build rows = .ok c := by
    rcases hc with rfl | hc
    · exact ⟨[], rfl⟩
    · exact hc
  obtain ⟨rows, h⟩ := hbuilt
  constructor
  case index_iff => exact fun name i => getElem?_index_iff h
  case index_category_iff => exact fun category hmem name i => getElem?_index_category_iff h hmem
  case category_ok_iff => exact fun name category => category_eq_ok_iff h
  case category_error_iff => exact fun name f => category_eq_error_iff h
  case subcategory_iff => exact fun category hmem name s => subcategory?_eq_some_iff h hmem
  case items_ok_iff => exact fun name sub items => items_eq_ok_iff h
  case items_error_iff => exact fun name sub f => items_eq_error_iff h
  case size_eq_length => exact size_eq_of_build h
  case size_eq_sum => exact size_eq_sumOf_itemCount h
  case isEmpty_iff => exact Catalog.isEmpty_iff h
  case nodup_entries => exact nodup_entries_of_build h
  case bijOn_place => exact bijOn_place_entries h
  case item_of_mem => exact fun e he => (mem_entries_iff_items h).mp he

/-- Rows with one name in two categories, of which one is without items there. -/
def hollowRows : List Row :=
  [⟨"a", ⟨"x", []⟩⟩, ⟨"b", ⟨"x", ["1", "2"]⟩⟩, ⟨"a", ⟨"y", []⟩⟩]

/-- Their catalog. -/
def hollow : Catalog :=
  ofCategories [.ofSubcategories "a" [⟨"x", []⟩, ⟨"y", []⟩],
    .ofSubcategories "b" [⟨"x", ["1", "2"]⟩]]

/-- What is listed without items is found, and gives no entry. -/
theorem parts_agree_hollow :
    build hollowRows = .ok hollow ∧ hollow.index["b"]? = some 1 ∧
      hollow.items "a" "y" = .ok [] ∧
      hollow.items "b" "y" = .error (.notFound .subcategory "y") ∧
      hollow.items "c" "y" = .error (.notFound .category "c") ∧
      hollow.size = hollow.entries.length ∧
      ∃ items, hollow.items "b" "x" = .ok items ∧ items[1]? = some "2" := by
  have hbuild : build hollowRows = .ok hollow := rfl
  have h := parts_agree hollow (.inr ⟨hollowRows, hbuild⟩)
  refine ⟨hbuild, (h.index_iff "b" 1).mpr rfl, ?_, ?_, ?_, h.size_eq_length, ?_⟩
  · refine (h.items_ok_iff "a" "y" []).mpr ?_
    exact ⟨_, List.mem_cons_self, rfl, ⟨"y", []⟩, by decide, rfl, rfl⟩
  · refine (h.items_error_iff "b" "y" _).mpr (.inr ?_)
    exact ⟨_, List.mem_cons_of_mem _ List.mem_cons_self, rfl, by decide, rfl⟩
  · exact (h.items_error_iff "c" "y" _).mpr (.inl ⟨by decide, rfl⟩)
  · exact h.item_of_mem ⟨"b", "x", "2", 1⟩ (by decide)

end Catalog

end EmojiCatalog
