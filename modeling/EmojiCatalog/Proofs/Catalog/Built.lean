import EmojiCatalog.Catalog.Builder
import Mathlib.Data.List.Induction
import Mathlib.Data.List.Nodup
/-!
Catalogs that come from rows.

Gathering takes the rows one by one into groups that it finds by a search.  The result can be said
without the search: the names of the groups are those of the rows in the order of first appearance
(`categoryNames`), and under each name stand the subcategories of its rows in row order
(`subcategoriesUnder`).  `groupRows_eq` says so, by induction on the rows from the end, because a
row changes the groups of the rows before it.

A catalog that `Catalog.build` makes is the catalog of the gathered rows (`eq_of_build`), so no two
of its categories share a name (`nodup_names_of_build`), nor do two subcategories of one category
(`nodup_subcategories_of_build`), and its size is the number of its entries (`size_eq_of_build`).
The entries of one category are then told apart by its name alone, and there
are as many as the category has items (`countP_entries_of_build`).
-/

namespace EmojiCatalog

/-! ### Gathering -/

/-- The names of the categories of some rows, in the order of first appearance. -/
def categoryNames (rows : List Row) : List String := (rows.map (·.category)).eraseDups

/-- The subcategories that rows add to the category of a name, in the order of the rows. -/
def subcategoriesUnder (rows : List Row) (name : String) : List Subcategory :=
  (rows.filter (·.category == name)).map (·.subcategory)

section Groups

variable {rows : List Row} {row : Row} {name : String}

theorem mem_categoryNames : name ∈ categoryNames rows ↔ ∃ row ∈ rows, row.category = name := by
  rw [categoryNames, List.mem_eraseDups, List.mem_map]

/-- A further row adds its category unless it is known. -/
theorem categoryNames_concat (rows : List Row) (row : Row) :
    categoryNames (rows ++ [row])
      = if row.category ∈ categoryNames rows then categoryNames rows
        else categoryNames rows ++ [row.category] := by
  have hmem : row.category ∈ categoryNames rows ↔ row.category ∈ rows.map (·.category) :=
    List.mem_eraseDups
  rw [if_congr hmem rfl rfl, categoryNames, List.map_append, List.map_singleton,
    List.eraseDups_append, ← categoryNames, List.removeAll, List.filter_singleton]
  split
  next h => simp [h]
  next h => simp [h, List.eraseDups_cons]

theorem nodup_categoryNames (rows : List Row) : (categoryNames rows).Nodup := by
  induction rows using List.reverseRecOn with
  | nil => exact List.nodup_nil
  | append_singleton rows row ih =>
    rw [categoryNames_concat]
    split
    next => exact ih
    next h => exact List.nodup_append'.mpr ⟨ih, List.nodup_singleton _, by simpa using h⟩

/-- A further row adds its subcategory at the end of its own category. -/
theorem subcategoriesUnder_concat (rows : List Row) (row : Row) (name : String) :
    subcategoriesUnder (rows ++ [row]) name
      = if name = row.category then subcategoriesUnder rows name ++ [row.subcategory]
        else subcategoriesUnder rows name := by
  rw [subcategoriesUnder, List.filter_append, List.map_append]
  split
  next h => rw [List.filter_singleton, h, beq_self_eq_true]; rfl
  next h =>
    rw [List.filter_singleton, beq_eq_false_iff_ne.mpr (Ne.symm h)]
    exact List.append_nil _

theorem subcategoriesUnder_eq_nil_iff :
    subcategoriesUnder rows name = [] ↔ name ∉ categoryNames rows := by
  rw [subcategoriesUnder, List.map_eq_nil_iff, List.filter_eq_nil_iff, mem_categoryNames]
  simp only [beq_iff_eq, not_exists, not_and]

/-- Gathering a row changes the group of its name, or adds one at the end. -/
theorem gather_map {names : List String} (h : names.Nodup) (f : String → List Subcategory) :
    gather (names.map fun name => (name, f name)) row
      = if row.category ∈ names
        then names.map fun name =>
          (name, if name = row.category then f name ++ [row.subcategory] else f name)
        else (names.map fun name => (name, f name)) ++ [(row.category, [row.subcategory])] := by
  induction names with
  | nil => rfl
  | cons name names ih =>
    obtain ⟨hname, hnodup⟩ := List.nodup_cons.mp h
    rw [List.map_cons, gather]
    split
    next heq =>
      -- the search ends here, and no later group has the name
      have hrest : ∀ other ∈ names, other ≠ row.category :=
        fun other hother hsame => hname (heq ▸ hsame ▸ hother)
      rw [if_pos (heq ▸ List.mem_cons_self), List.map_cons, if_pos heq]
      congr 1
      exact List.map_congr_left fun other hother => by rw [if_neg (hrest other hother)]
    next hne =>
      have hmem : row.category ∈ name :: names ↔ row.category ∈ names := by
        rw [List.mem_cons, or_iff_right (Ne.symm hne)]
      simp only [ih hnodup, hmem, List.map_cons, if_neg hne]
      split <;> rfl

/-- **The groups of some rows**: one for every category, in the order of first appearance, with its
subcategories in the order of the rows. -/
theorem groupRows_eq (rows : List Row) :
    groupRows rows = (categoryNames rows).map fun name => (name, subcategoriesUnder rows name) := by
  induction rows using List.reverseRecOn with
  | nil => rfl
  | append_singleton rows row ih =>
    have hgather : groupRows (rows ++ [row]) = gather (groupRows rows) row := List.foldl_append
    rw [hgather, ih, gather_map (nodup_categoryNames rows), categoryNames_concat]
    simp only [subcategoriesUnder_concat]
    split
    next => rfl
    next hnew =>
      -- the names known before differ from the new one, under which nothing stood
      rw [List.map_append, List.map_singleton, if_pos rfl,
        subcategoriesUnder_eq_nil_iff.mpr hnew]
      congr 1
      refine List.map_congr_left fun name hname => ?_
      have hne : name ≠ row.category := fun h => hnew (h ▸ hname)
      rw [if_neg hne]

/-- Rows are gathered under names that differ. -/
theorem nodup_names_groupRows (rows : List Row) : ((groupRows rows).map Prod.fst).Nodup := by
  rw [groupRows_eq, List.map_map]
  exact (nodup_categoryNames rows).map_on fun _ _ _ _ h => h

end Groups

/-! ### Building -/

theorem eq_of_ofGroup {g : Group} {c : Category} (h : Category.ofGroup g = .ok c) :
    c = .ofSubcategories g.1 g.2 := by
  unfold Category.ofGroup at h
  split at h
  · cases h
  · cases h
    rfl

/-- A repeat is found exactly when a name occurs twice, or was seen before. -/
theorem firstRepeat?_eq_none_iff {seen names : List String} :
    firstRepeat? seen names = none ↔ names.Nodup ∧ ∀ name ∈ names, name ∉ seen := by
  induction names generalizing seen with
  | nil => simp [firstRepeat?]
  | cons name names ih =>
    by_cases hseen : name ∈ seen
    · simp [firstRepeat?, hseen]
    · rw [firstRepeat?, if_neg hseen, ih, List.nodup_cons, List.forall_mem_cons]
      simp only [List.mem_cons, not_or]
      constructor
      · rintro ⟨hnodup, hnames⟩
        exact ⟨⟨fun h => (hnames name h).1 rfl, hnodup⟩, hseen, fun n hn => (hnames n hn).2⟩
      · rintro ⟨⟨hname, hnodup⟩, -, hnames⟩
        exact ⟨hnodup, fun n hn => ⟨fun h => hname (h ▸ hn), hnames n hn⟩⟩

theorem nodup_names_of_ofGroup {g : Group} {c : Category} (h : Category.ofGroup g = .ok c) :
    (c.subcategories.map (·.name)).Nodup := by
  unfold Category.ofGroup at h
  split at h
  next => cases h
  next hnone =>
    cases h
    exact (firstRepeat?_eq_none_iff.mp hnone).1

/-- Every category of the result comes from its group. -/
theorem forall₂_of_mapM_ofGroup {groups : List Group} {categories : List Category}
    (h : groups.mapM Category.ofGroup = .ok categories) :
    List.Forall₂ (fun g c => Category.ofGroup g = .ok c) groups categories := by
  induction groups generalizing categories with
  | nil =>
    cases h
    exact .nil
  | cons g groups ih =>
    rw [List.mapM_cons] at h
    cases hg : Category.ofGroup g with
    | error f =>
      rw [hg] at h
      cases h
    | ok c =>
      cases hgs : groups.mapM Category.ofGroup with
      | error f =>
        rw [hg, hgs] at h
        cases h
      | ok rest =>
        rw [hg, hgs] at h
        cases h
        exact .cons hg (ih hgs)

theorem eq_map_of_mapM_ofGroup {groups : List Group} {categories : List Category}
    (h : groups.mapM Category.ofGroup = .ok categories) :
    categories = groups.map fun g => .ofSubcategories g.1 g.2 := by
  have hall := forall₂_of_mapM_ofGroup h
  clear h
  induction hall with
  | nil => rfl
  | cons hg _ ih => rw [List.map_cons, eq_of_ofGroup hg, ih]

theorem exists_ofGroup_of_mem {groups : List Group} {categories : List Category} {c : Category}
    (h : List.Forall₂ (fun g c => Category.ofGroup g = .ok c) groups categories)
    (hc : c ∈ categories) : ∃ g, Category.ofGroup g = .ok c := by
  induction h with
  | nil => cases hc
  | cons hg _ ih =>
    rcases List.mem_cons.mp hc with rfl | hc
    · exact ⟨_, hg⟩
    · exact ih hc

namespace Catalog

variable {rows : List Row} {c : Catalog}

theorem exists_of_build (h : build rows = .ok c) :
    ∃ categories, (groupRows rows).mapM Category.ofGroup = .ok categories ∧
      c = ofCategories categories := by
  unfold build at h
  cases hg : (groupRows rows).mapM Category.ofGroup with
  | error f =>
    rw [hg] at h
    cases h
  | ok categories =>
    rw [hg] at h
    cases h
    exact ⟨categories, rfl, rfl⟩

/-- The catalog of some rows is that of the rows gathered by category. -/
theorem eq_of_build (h : build rows = .ok c) :
    c = ofCategories ((groupRows rows).map fun g => .ofSubcategories g.1 g.2) := by
  obtain ⟨categories, hg, rfl⟩ := exists_of_build h
  rw [eq_map_of_mapM_ofGroup hg]

/-- No category names a subcategory twice. -/
theorem nodup_subcategories_of_build (h : build rows = .ok c) {category : Category}
    (hmem : category ∈ c.categories) : (category.subcategories.map (·.name)).Nodup := by
  obtain ⟨categories, hg, rfl⟩ := exists_of_build h
  obtain ⟨g, hgroup⟩ := exists_ofGroup_of_mem (forall₂_of_mapM_ofGroup hg) hmem
  exact nodup_names_of_ofGroup hgroup

theorem nodup_names_of_build (h : build rows = .ok c) : (c.categories.map (·.name)).Nodup := by
  have hnames := nodup_names_groupRows rows
  rw [eq_of_build h]
  show (((groupRows rows).map fun g => Category.ofSubcategories g.1 g.2).map (·.name)).Nodup
  rw [List.map_map]
  exact hnames

end Catalog

/-! ### Counting entries -/

@[simp] theorem Subcategory.length_entries (category : String) (s : Subcategory) :
    (s.entries category).length = s.items.length := by
  rw [Subcategory.entries, List.length_map, List.length_zipIdx]

@[simp] theorem Category.length_entries (c : Category) : c.entries.length = c.itemCount := by
  rw [Category.entries, length_flatMap, Category.itemCount]
  simp only [Subcategory.length_entries]

theorem Category.category_of_mem_entries {c : Category} {e : Entry} (h : e ∈ c.entries) :
    e.category = c.name := by
  obtain ⟨s, -, hs⟩ := List.mem_flatMap.mp h
  obtain ⟨p, -, rfl⟩ := List.mem_map.mp hs
  rfl

namespace Catalog

variable {rows : List Row} {c : Catalog}

/-- The size of a catalog is the number of its entries. -/
theorem size_eq_of_build (h : build rows = .ok c) : c.size = c.entries.length := by
  have hsize : c.size = sumOf (·.itemCount) c.categories := by
    rw [eq_of_build h]
    rfl
  rw [hsize, entries, length_flatMap]
  simp only [Category.length_entries]

theorem countP_category_entries (category : Category) :
    category.entries.countP (·.category == category.name) = category.itemCount := by
  rw [← Category.length_entries, List.countP_eq_length]
  intro e he
  rw [Category.category_of_mem_entries he, beq_self_eq_true]

theorem countP_category_eq_zero {categories : List Category} {name : String}
    (h : name ∉ categories.map (·.name)) :
    (categories.flatMap (·.entries)).countP (·.category == name) = 0 := by
  rw [List.countP_eq_zero]
  intro e he hname
  obtain ⟨category, hmem, he⟩ := List.mem_flatMap.mp he
  rw [Category.category_of_mem_entries he, beq_iff_eq] at hname
  exact h (hname ▸ List.mem_map_of_mem hmem)

/-- Of the entries of categories that differ in their names, those under the name of one are its
own. -/
theorem countP_category_flatMap {categories : List Category} {category : Category}
    (h : (categories.map (·.name)).Nodup) (hmem : category ∈ categories) :
    (categories.flatMap (·.entries)).countP (·.category == category.name)
      = category.itemCount := by
  induction categories with
  | nil => cases hmem
  | cons first rest ih =>
    rw [List.map_cons, List.nodup_cons] at h
    rw [List.flatMap_cons, List.countP_append]
    rcases List.mem_cons.mp hmem with rfl | hmem
    · rw [countP_category_entries, countP_category_eq_zero h.1, Nat.add_zero]
    · -- the first category has another name, so none of its entries counts
      have hne : category.name ∉ [first].map (·.name) := by
        intro hin
        have hname : category.name = first.name := List.mem_singleton.mp hin
        exact h.1 (hname ▸ List.mem_map_of_mem hmem)
      have hzero := countP_category_eq_zero hne
      rw [List.flatMap_singleton] at hzero
      rw [hzero, ih h.2 hmem, Nat.zero_add]

/-- As many entries stand under the name of a category as it has items. -/
theorem countP_entries_of_build (h : build rows = .ok c) {category : Category}
    (hmem : category ∈ c.categories) :
    c.entries.countP (·.category == category.name) = category.itemCount :=
  countP_category_flatMap (nodup_names_of_build h) hmem

/-! ### A small catalog -/

/-- The rows of a catalog of two items. -/
def twoFacesRows : List Row := [⟨"faces", ⟨"happy", ["😀", "😁"]⟩⟩]

/-- A catalog of two items. -/
def twoFaces : Catalog :=
  ofCategories [.ofSubcategories "faces" [⟨"happy", ["😀", "😁"]⟩]]

theorem build_twoFacesRows : build twoFacesRows = .ok twoFaces := rfl

end Catalog

end EmojiCatalog
