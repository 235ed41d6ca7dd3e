import EmojiCatalog.Proofs.Catalog.Built
/-!
What rows a catalog is built from.

A catalog depends on its rows only through the names of their categories in the order of first
appearance and the subcategories that they add to each (`build_congr`).  Rows of different
categories can thus be moved past each other as long as these stay the same, and the rows that list
a catalog have the same ones as those from which it was built (`build_rows_of_build`).

The check walks the gathered categories.  It finds a repeat exactly if two rows name the same pair
(`exists_build_iff`), and the one that it reports is the first one in the earliest category that has
one (`build_refused_iff`).  `build_gathers` puts these together.
-/

namespace EmojiCatalog

/-! ### Repeats -/

/-- The category and the subcategory that a row names. -/
def Row.key (row : Row) : String × String := (row.category, row.subcategory.name)

/-- The names of the subcategories that rows add to the category of a name. -/
def namesUnder (rows : List Row) (name : String) : List String :=
  (subcategoriesUnder rows name).map (·.name)

/-- The first name in a list that stands there before: the names before it all differ. -/
def IsFirstRepeat (names : List String) (name : String) : Prop :=
  ∃ before after, names = before ++ name :: after ∧ before.Nodup ∧ name ∈ before

theorem IsFirstRepeat.not_nodup {names : List String} {name : String}
    (h : IsFirstRepeat names name) : ¬names.Nodup := by
  obtain ⟨before, after, rfl, -, hmem⟩ := h
  exact fun hnodup => (List.nodup_append.mp hnodup).2.2 name hmem name List.mem_cons_self rfl

/-- The first repeat is a name that stands among those before it, or was seen, while these differ
from each other and from all seen. -/
theorem firstRepeat?_eq_some_iff {seen names : List String} {name : String} :
    firstRepeat? seen names = some name ↔
      ∃ before after, names = before ++ name :: after ∧ before.Nodup ∧
        (∀ n ∈ before, n ∉ seen) ∧ (name ∈ before ∨ name ∈ seen) := by
  induction names generalizing seen with
  | nil => simp [firstRepeat?]
  | cons first names ih =>
    rw [firstRepeat?]
    split
    next hseen =>
      constructor
      · rintro ⟨⟩
        exact ⟨[], names, rfl, List.nodup_nil, by simp, .inr hseen⟩
      · rintro ⟨before, after, hnames, -, hbefore, -⟩
        cases before with
        | nil =>
          cases hnames
          rfl
        | cons n before =>
          cases hnames
          exact absurd hseen (hbefore _ List.mem_cons_self)
    next hseen =>
      rw [ih]
      constructor
      · rintro ⟨before, after, rfl, hnodup, hbefore, hname⟩
        refine ⟨first :: before, after, rfl, ?_, ?_, ?_⟩
        · exact List.nodup_cons.mpr ⟨fun h => hbefore _ h List.mem_cons_self, hnodup⟩
        · exact List.forall_mem_cons.mpr
            ⟨hseen, fun n hn h => hbefore n hn (List.mem_cons_of_mem _ h)⟩
        · rw [List.mem_cons] at hname ⊢
          tauto
      · rintro ⟨before, after, hnames, hnodup, hbefore, hname⟩
        cases before with
        | nil =>
          -- nothing stands before it, so it is the first name, which was not seen
          cases hnames
          exact absurd (hname.resolve_left List.not_mem_nil) hseen
        | cons n before =>
          cases hnames
          obtain ⟨hfirst, hnodup⟩ := List.nodup_cons.mp hnodup
          refine ⟨before, after, rfl, hnodup, ?_, ?_⟩
          · intro n hn h
            rcases List.mem_cons.mp h with rfl | h
            · exact hfirst hn
            · exact hbefore n (List.mem_cons_of_mem _ hn) h
          · rw [List.mem_cons] at hname ⊢
            tauto

/-- A group is refused for its first repeat. -/
theorem ofGroup_eq_error_iff {g : Group} {f : Fault} :
    Category.ofGroup g = .error f ↔
      ∃ name, IsFirstRepeat (g.2.map (·.name)) name ∧
        f = .invalidState (.duplicateSubcategory g.1 name) := by
  have hrepeat : ∀ name, firstRepeat? [] (g.2.map (·.name)) = some name ↔
      IsFirstRepeat (g.2.map (·.name)) name := by
    intro name
    rw [firstRepeat?_eq_some_iff]
    simp [IsFirstRepeat]
  unfold Category.ofGroup
  constructor
  · intro h
    split at h
    next name hname =>
      cases h
      exact ⟨name, (hrepeat name).mp hname, rfl⟩
    next => cases h
  · rintro ⟨name, hname, rfl⟩
    rw [(hrepeat name).mpr hname]

theorem exists_ofGroup_eq_ok_iff {g : Group} :
    (∃ c, Category.ofGroup g = .ok c) ↔ (g.2.map (·.name)).Nodup := by
  constructor
  · rintro ⟨c, hc⟩
    have hnodup := nodup_names_of_ofGroup hc
    rw [eq_of_ofGroup hc] at hnodup
    exact hnodup
  · intro h
    have hnone := firstRepeat?_eq_none_iff.mpr ⟨h, fun _ _ => List.not_mem_nil⟩
    exact ⟨_, by rw [Category.ofGroup, hnone]⟩

/-- Going through a list fails at its head, or passes there and fails later. -/
theorem mapM_cons_eq_error_iff {ε β γ : Type} {check : β → Except ε γ} {first : β} {rest : List β}
    {f : ε} :
    (first :: rest).mapM check = .error f ↔
      check first = .error f ∨ (∃ c, check first = .ok c) ∧ rest.mapM check = .error f := by
  rw [List.mapM_cons]
  cases check first with
  | error f' =>
    constructor
    · rintro ⟨⟩
      exact .inl rfl
    · rintro (⟨⟨⟩⟩ | ⟨⟨c, ⟨⟩⟩, -⟩)
      rfl
  | ok c =>
    cases rest.mapM check with
    | error f' =>
      constructor
      · rintro ⟨⟩
        exact .inr ⟨⟨c, rfl⟩, rfl⟩
      · rintro (⟨⟨⟩⟩ | ⟨-, ⟨⟩⟩)
        rfl
    | ok cs =>
      constructor
      · rintro ⟨⟩
      · rintro (⟨⟨⟩⟩ | ⟨-, ⟨⟩⟩)

/-- The first group that is refused decides. -/
theorem mapM_ofGroup_eq_error_iff {groups : List Group} {f : Fault} :
    groups.mapM Category.ofGroup = .error f ↔
      ∃ pre g post, groups = pre ++ g :: post ∧ (∀ h ∈ pre, (h.2.map (·.name)).Nodup) ∧
        Category.ofGroup g = .error f := by
  induction groups with
  | nil =>
    constructor
    · rintro ⟨⟩
    · rintro ⟨pre, g, post, hgroups, -, -⟩
      simp at hgroups
  | cons first groups ih =>
    rw [mapM_cons_eq_error_iff, ih]
    constructor
    · rintro (hfirst | ⟨hfirst, pre, g, post, rfl, hpre, hg⟩)
      · exact ⟨[], first, groups, rfl, by simp, hfirst⟩
      · refine ⟨first :: pre, g, post, rfl, ?_, hg⟩
        exact List.forall_mem_cons.mpr ⟨exists_ofGroup_eq_ok_iff.mp hfirst, hpre⟩
    · rintro ⟨pre, g, post, hgroups, hpre, hg⟩
      cases pre with
      | nil =>
        cases hgroups
        exact .inl hg
      | cons h pre =>
        cases hgroups
        obtain ⟨hfirst, hpre⟩ := List.forall_mem_cons.mp hpre
        exact .inr ⟨exists_ofGroup_eq_ok_iff.mpr hfirst, pre, g, post, rfl, hpre, hg⟩

/-- Rows repeat no pair of names exactly if no category repeats a name. -/
theorem nodup_keys_iff {rows : List Row} :
    (rows.map (·.key)).Nodup ↔ ∀ name, (namesUnder rows name).Nodup := by
  constructor
  · intro h name
    rw [namesUnder, subcategoriesUnder, List.map_map]
    refine List.Nodup.of_map (fun n => (name, n)) ?_
    rw [List.map_map]
    -- under one name the pairs are told apart by the subcategory
    have hkeys : (rows.filter (·.category == name)).map
          ((fun n => (name, n)) ∘ Subcategory.name ∘ Row.subcategory)
        = (rows.filter (·.category == name)).map (·.key) := by
      refine List.map_congr_left fun row hrow => ?_
      have hname : row.category = name := beq_iff_eq.mp (List.mem_filter.mp hrow).2
      show (name, row.subcategory.name) = (row.category, row.subcategory.name)
      rw [hname]
    rw [hkeys]
    exact h.sublist (List.filter_sublist.map _)
  · intro h
    induction rows with
    | nil => exact List.nodup_nil
    | cons row rows ih =>
      rw [List.map_cons, List.nodup_cons]
      constructor
      · intro hmem
        obtain ⟨other, hother, hkey⟩ := List.mem_map.mp hmem
        obtain ⟨hcategory, hname⟩ := Prod.ext_iff.mp hkey
        have hown := h row.category
        rw [namesUnder, subcategoriesUnder, List.filter_cons_of_pos (by simp),
          List.map_cons, List.map_cons, List.nodup_cons] at hown
        apply hown.1
        rw [List.map_map]
        exact List.mem_map.mpr
          ⟨other, List.mem_filter.mpr ⟨hother, beq_iff_eq.mpr hcategory⟩, hname⟩
      · refine ih fun name => (h name).sublist ?_
        exact (((List.sublist_cons_self row rows).filter _).map _).map _

namespace Catalog

variable {rows rows' : List Row} {c : Catalog}

/-! ### Building from the gathered rows -/

theorem build_eq_error_iff {f : Fault} :
    build rows = .error f ↔ (groupRows rows).mapM Category.ofGroup = .error f := by
  unfold build
  cases (groupRows rows).mapM Category.ofGroup with
  | error f' => exact ⟨fun h => by cases h; rfl, fun h => by cases h; rfl⟩
  | ok cs => exact ⟨nofun, nofun⟩

/-- Rows that gather alike build alike. -/
theorem build_congr (hnames : categoryNames rows' = categoryNames rows)
    (hsubs : ∀ name, subcategoriesUnder rows' name = subcategoriesUnder rows name) :
    build rows' = build rows := by
  have hgroups : groupRows rows' = groupRows rows := by
    rw [groupRows_eq, groupRows_eq, hnames]
    simp only [hsubs]
  unfold build
  rw [hgroups]

/-- The fault names the first repeat of the earliest category that has one. -/
theorem build_refused_iff {f : Fault} :
    build rows = .error f ↔
      ∃ pre category post name, categoryNames rows = pre ++ category :: post ∧
        (∀ other ∈ pre, (namesUnder rows other).Nodup) ∧
        IsFirstRepeat (namesUnder rows category) name ∧
        f = .invalidState (.duplicateSubcategory category name) := by
  rw [build_eq_error_iff, groupRows_eq, mapM_ofGroup_eq_error_iff]
  constructor
  · rintro ⟨pre, g, post, hgroups, hpre, hg⟩
    obtain ⟨names, rest, hnames, rfl, hrest⟩ := List.map_eq_append_iff.mp hgroups
    obtain ⟨category, post', rfl, rfl, -⟩ := List.map_eq_cons_iff.mp hrest
    obtain ⟨name, hname, rfl⟩ := ofGroup_eq_error_iff.mp hg
    exact ⟨names, category, post', name, hnames,
      fun other hother => hpre _ (List.mem_map_of_mem hother), hname, rfl⟩
  · rintro ⟨pre, category, post, name, hnames, hpre, hname, rfl⟩
    refine ⟨pre.map fun n => (n, subcategoriesUnder rows n),
      (category, subcategoriesUnder rows category),
      post.map fun n => (n, subcategoriesUnder rows n), ?_, ?_,
      ofGroup_eq_error_iff.mpr ⟨name, hname, rfl⟩⟩
    · rw [hnames, List.map_append, List.map_cons]
    · exact List.forall_mem_map.mpr hpre

theorem exists_build_iff : (∃ c, build rows = .ok c) ↔ (rows.map (·.key)).Nodup := by
  rw [nodup_keys_iff]
  constructor
  · rintro ⟨c, hc⟩ name
    by_cases hname : name ∈ categoryNames rows
    · have hmem : Category.ofSubcategories name (subcategoriesUnder rows name)
          ∈ c.categories := by
        rw [eq_of_build hc, groupRows_eq]
        exact List.mem_map_of_mem (List.mem_map_of_mem hname)
      exact nodup_subcategories_of_build hc hmem
    · rw [namesUnder, subcategoriesUnder_eq_nil_iff.mpr hname]
      exact List.nodup_nil
  · intro h
    cases hb : build rows with
    | ok c => exact ⟨c, rfl⟩
    | error f =>
      -- a repeat is one under the name of its category
      obtain ⟨_, category, _, _, -, -, hname, -⟩ := build_refused_iff.mp hb
      exact absurd (h category) hname.not_nodup

/-- The categories of a catalog with their subcategories are the gathered rows. -/
theorem categories_of_build (h : build rows = .ok c) :
    c.categories = (categoryNames rows).map fun name =>
      .ofSubcategories name (subcategoriesUnder rows name) := by
  rw [eq_of_build h, groupRows_eq]
  show ((categoryNames rows).map _).map _ = _
  rw [List.map_map]
  rfl

theorem entries_of_build (h : build rows = .ok c) :
    c.entries = (categoryNames rows).flatMap fun category =>
      (subcategoriesUnder rows category).flatMap fun s =>
        s.items.mapIdx fun position item => ⟨category, s.name, item, position⟩ := by
  rw [entries, categories_of_build h, List.flatMap_map]
  congr 1
  funext category
  show (subcategoriesUnder rows category).flatMap (·.entries category) = _
  congr 1
  funext s
  rw [Subcategory.entries, List.mapIdx_eq_zipIdx_map]

/-! ### Listing the rows again -/

theorem rows_of_build (h : build rows = .ok c) :
    c.rows = (categoryNames rows).flatMap fun name =>
      (subcategoriesUnder rows name).map (⟨name, ·⟩) := by
  rw [Catalog.rows, categories_of_build h, List.flatMap_map]
  rfl

theorem categoryNames_cons (row : Row) (rows : List Row) :
    categoryNames (row :: rows)
      = row.category :: categoryNames (rows.filter (!·.category == row.category)) := by
  rw [categoryNames, List.map_cons, List.eraseDups_cons, List.filter_map]
  rfl

/-- Listed by categories, rows name these in order. -/
theorem categoryNames_flatMap {names : List String} {f : String → List Subcategory}
    (hnodup : names.Nodup) (hf : ∀ name ∈ names, f name ≠ []) :
    categoryNames (names.flatMap fun name => (f name).map (⟨name, ·⟩)) = names := by
  induction names with
  | nil => rfl
  | cons name names ih =>
    obtain ⟨hname, hnodup⟩ := List.nodup_cons.mp hnodup
    obtain ⟨hsubs, hf⟩ := List.forall_mem_cons.mp hf
    obtain ⟨s, subs, hs⟩ := List.exists_cons_of_ne_nil hsubs
    -- of the rows after the first, those of its category name nothing new
    have hown : (subs.map (Row.mk name)).filter (!·.category == name) = [] := by
      rw [List.filter_eq_nil_iff]
      intro row hrow
      obtain ⟨s, -, rfl⟩ := List.mem_map.mp hrow
      simp
    have hothers : (names.flatMap fun name => (f name).map (Row.mk name)).filter
          (!·.category == name)
        = names.flatMap fun name => (f name).map (Row.mk name) := by
      rw [List.filter_eq_self]
      intro row hrow
      obtain ⟨other, hother, hrow⟩ := List.mem_flatMap.mp hrow
      obtain ⟨s, -, rfl⟩ := List.mem_map.mp hrow
      have hne : other ≠ name := fun h => hname (h ▸ hother)
      simpa using hne
    rw [List.flatMap_cons, hs, List.map_cons, List.cons_append, categoryNames_cons,
      List.filter_append, hown, hothers, List.nil_append, ih hnodup hf]

/-- Gathering at one of some different names is taking what stands there. -/
theorem flatMap_ite_eq {α : Type} {names : List String} {name : String} (f : String → List α)
    (h : names.Nodup) :
    (names.flatMap fun other => if other = name then f other else [])
      = if name ∈ names then f name else [] := by
  induction names with
  | nil => rfl
  | cons first names ih =>
    obtain ⟨hfirst, hnodup⟩ := List.nodup_cons.mp h
    rw [List.flatMap_cons, ih hnodup]
    by_cases hname : first = name
    · subst hname
      rw [if_pos rfl, if_neg hfirst, List.append_nil, if_pos List.mem_cons_self]
    · have hmem : name ∈ first :: names ↔ name ∈ names := by
        rw [List.mem_cons, or_iff_right (Ne.symm hname)]
      rw [if_neg hname, List.nil_append, if_congr hmem rfl rfl]

theorem subcategoriesUnder_flatMap {names : List String} {f : String → List Subcategory}
    (hnodup : names.Nodup) (hf : ∀ name, name ∉ names → f name = []) (name : String) :
    subcategoriesUnder (names.flatMap fun name => (f name).map (⟨name, ·⟩)) name = f name := by
  have hown : ∀ other, ((f other).map (Row.mk other ·)).filter (·.category == name)
      = if other = name then (f other).map (Row.mk other ·) else [] := by
    intro other
    split
    next h =>
      rw [List.filter_eq_self]
      intro row hrow
      obtain ⟨s, -, rfl⟩ := List.mem_map.mp hrow
      exact beq_iff_eq.mpr h
    next h =>
      rw [List.filter_eq_nil_iff]
      intro row hrow
      obtain ⟨s, -, rfl⟩ := List.mem_map.mp hrow
      simpa using h
  rw [subcategoriesUnder, List.filter_flatMap]
  simp only [hown]
  rw [flatMap_ite_eq (fun other => (f other).map (Row.mk other ·)) hnodup]
  split
  next =>
    rw [List.map_map]
    exact List.map_id _
  next h => rw [hf name h, List.map_nil]

theorem build_rows_of_build (h : build rows = .ok c) : build c.rows = .ok c := by
  have hempty : ∀ name, name ∉ categoryNames rows → subcategoriesUnder rows name = [] :=
    fun _ => subcategoriesUnder_eq_nil_iff.mpr
  have hsome : ∀ name ∈ categoryNames rows, subcategoriesUnder rows name ≠ [] :=
    fun _ hname hnil => subcategoriesUnder_eq_nil_iff.mp hnil hname
  rw [rows_of_build h, ← h]
  exact build_congr (categoryNames_flatMap (nodup_categoryNames rows) hsome)
    (subcategoriesUnder_flatMap (nodup_categoryNames rows) hempty)

/-- **What is built from rows.**  Building succeeds exactly if no pair of a category and a
subcategory is named by two rows.  The catalog then has the categories in the order of first
appearance and the subcategories of each in the order of its rows, it lists its entries in that
order, and it is built again from its own rows; rows that name the categories in the same order of
first appearance and agree within each category build alike.  Rows are refused for the first repeat
of the earliest category that has one. -/
theorem build_gathers (rows : List Row) :
    ((∃ c, build rows = .ok c) ↔ (rows.map (·.key)).Nodup) ∧
    (∀ c, build rows = .ok c →
      (c.categories.map fun category => (category.name, category.subcategories))
          = ((categoryNames rows).map fun name => (name, subcategoriesUnder rows name)) ∧
      c.entries = ((categoryNames rows).flatMap fun category =>
        (subcategoriesUnder rows category).flatMap fun s =>
          s.items.mapIdx fun position item => ⟨category, s.name, item, position⟩) ∧
      build c.rows = .ok c) ∧
    (∀ others : List Row, categoryNames others = categoryNames rows →
      (∀ name, subcategoriesUnder others name = subcategoriesUnder rows name) →
      build others = build rows) ∧
    ∀ f, build rows = .error f ↔
      ∃ pre category post name, categoryNames rows = pre ++ category :: post ∧
        (∀ other ∈ pre, (namesUnder rows other).Nodup) ∧
        IsFirstRepeat (namesUnder rows category) name ∧
        f = .invalidState (.duplicateSubcategory category name) := by
  refine ⟨exists_build_iff, fun c hc => ⟨?_, entries_of_build hc, build_rows_of_build hc⟩,
    fun others => build_congr, fun f => build_refused_iff⟩
  rw [categories_of_build hc, List.map_map]
  rfl

/-- Two categories repeat a subcategory, and the repeat that comes first is in the second one. -/
def twoRepeatsRows : List Row :=
  [⟨"faces", ⟨"happy", ["😀"]⟩⟩, ⟨"nature", ⟨"plants", []⟩⟩, ⟨"nature", ⟨"plants", ["🌱"]⟩⟩,
    ⟨"faces", ⟨"happy", []⟩⟩]

/-- The fault names the repeat of the earlier category, which is the last row. -/
theorem build_gathers_twoRepeats :
    IsFirstRepeat (namesUnder twoRepeatsRows "nature") "plants" ∧
    build twoRepeatsRows = .error (.invalidState (.duplicateSubcategory "faces" "happy")) := by
  have h := (build_gathers twoRepeatsRows).2.2.2
    (.invalidState (.duplicateSubcategory "faces" "happy"))
  refine ⟨⟨["plants"], [], by decide, by decide, by decide⟩, h.mpr ?_⟩
  exact ⟨[], "faces", ["nature"], "happy", by decide, nofun,
    ⟨["happy"], [], by decide, by decide, by decide⟩, rfl⟩

end Catalog

end EmojiCatalog
