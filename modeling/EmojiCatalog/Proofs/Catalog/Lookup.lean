import EmojiCatalog.Proofs.Catalog.Built
/-!
Looking up names.

An index gives a place of every name in the list that it was made from, and of no other name.  Where
no name is repeated it is therefore the inverse of the list (`NameIndex.getElem?_eq_some_iff`), and
looking a name up through it comes to searching the list (`toList_lookup`).

In a catalog that was built no name is repeated on either level.  So `Catalog.category?` and
`Category.subcategory?` find what is listed under a name, and nothing when nothing is.
-/

namespace EmojiCatalog

/-! ### Indices -/

namespace NameIndex

variable {names : List String} {name : String} {i : Nat}

@[simp] theorem getElem?_nil (name : String) : (ofNames [])[name]? = none :=
  Std.HashMap.getElem?_empty

/-- A further name gets the next place, also if it had one before. -/
theorem getElem?_concat (names : List String) (last name : String) :
    (ofNames (names ++ [last]))[name]?
      = if last = name then some names.length else (ofNames names)[name]? := by
  have hinsert : ofNames (names ++ [last]) = (ofNames names).insert last names.length := by
    rw [ofNames, List.zipIdx_append, List.foldl_append, Nat.zero_add]
    rfl
  rw [hinsert, Std.HashMap.getElem?_insert]
  simp only [beq_iff_eq]

/-- The place that is given for a name is one of its places. -/
theorem getElem?_of_eq_some (h : (ofNames names)[name]? = some i) : names[i]? = some name := by
  induction names using List.reverseRecOn with
  | nil =>
    rw [getElem?_nil] at h
    cases h
  | append_singleton names last ih =>
    rw [getElem?_concat] at h
    split at h
    next hlast =>
      rw [← Option.some.inj h, List.getElem?_concat_length, hlast]
    next =>
      have hplace := ih h
      rw [List.getElem?_append_left (List.getElem?_eq_some_iff.mp hplace).1, hplace]

theorem isSome_iff : (ofNames names)[name]?.isSome ↔ name ∈ names := by
  induction names using List.reverseRecOn with
  | nil => simp
  | append_singleton names last ih =>
    rw [getElem?_concat, List.mem_append, List.mem_singleton]
    split
    next hlast => exact ⟨fun _ => .inr hlast.symm, fun _ => rfl⟩
    next hlast => rw [ih, or_iff_left (Ne.symm hlast)]

/-- The index of names that differ is the inverse of their list. -/
theorem getElem?_eq_some_iff (h : names.Nodup) :
    (ofNames names)[name]? = some i ↔ names[i]? = some name := by
  refine ⟨getElem?_of_eq_some, fun hi => ?_⟩
  obtain ⟨j, hj⟩ := Option.isSome_iff_exists.mp (isSome_iff.mpr (List.mem_of_getElem? hi))
  have hlt := (List.getElem?_eq_some_iff.mp hi).1
  rw [hj, (List.getElem?_inj hlt h).mp (hi.trans (getElem?_of_eq_some hj).symm)]

end NameIndex

/-! ### Lists of named things -/

/-- Of several things with different keys only one has the key of a given one. -/
theorem filter_key_eq_singleton {α κ : Type} [BEq κ] [LawfulBEq κ] {key : α → κ} {xs : List α}
    (h : (xs.map key).Nodup) {x : α} (hx : x ∈ xs) : xs.filter (key · == key x) = [x] := by
  obtain ⟨before, after, rfl⟩ := List.append_of_mem hx
  rw [List.map_append, List.map_cons, List.nodup_append, List.nodup_cons] at h
  obtain ⟨-, ⟨hafter, -⟩, hbefore⟩ := h
  have hnone : ∀ others : List α, key x ∉ others.map key →
      others.filter (key · == key x) = [] := by
    intro others hnot
    rw [List.filter_eq_nil_iff]
    intro y hy heq
    exact hnot (beq_iff_eq.mp heq ▸ List.mem_map_of_mem hy)
  have hnot : key x ∉ before.map key := fun hmem => hbefore _ hmem _ List.mem_cons_self rfl
  rw [List.filter_append, List.filter_cons, beq_self_eq_true, if_pos rfl, hnone before hnot,
    hnone after hafter, List.nil_append]

/-- Looking a name up through the index comes to searching the list. -/
theorem toList_lookup {α : Type} {f : α → String} {xs : List α} (h : (xs.map f).Nodup)
    (name : String) :
    (((NameIndex.ofNames (xs.map f))[name]?).bind (xs[·]?)).toList = xs.filter (f · == name) := by
  cases hi : (NameIndex.ofNames (xs.map f))[name]? with
  | none =>
    have hnot : name ∉ xs.map f := by
      rw [← NameIndex.isSome_iff, hi]
      exact nofun
    refine (List.filter_eq_nil_iff.mpr fun x hx heq => hnot ?_).symm
    exact beq_iff_eq.mp heq ▸ List.mem_map_of_mem hx
  | some i =>
    have hplace := NameIndex.getElem?_of_eq_some hi
    rw [List.getElem?_map] at hplace
    obtain ⟨x, hx, rfl⟩ := Option.map_eq_some_iff.mp hplace
    rw [filter_key_eq_singleton h (List.mem_of_getElem? hx), Option.bind_some, hx]
    rfl

/-! ### Catalogs that were built -/

namespace Catalog

variable {rows : List Row} {c : Catalog}

theorem index_of_build (h : build rows = .ok c) :
    c.index = NameIndex.ofNames (c.categories.map (·.name)) := by
  rw [eq_of_build h]
  rfl

theorem index_category_of_build (h : build rows = .ok c) {category : Category}
    (hmem : category ∈ c.categories) :
    category.index = NameIndex.ofNames (category.subcategories.map (·.name)) := by
  rw [eq_of_build h] at hmem
  obtain ⟨g, -, rfl⟩ := List.mem_map.mp hmem
  rfl

/-- The category of a name is the one that is listed under it. -/
theorem toList_category? (h : build rows = .ok c) (name : String) :
    (c.category? name).toList = c.categories.filter (·.name == name) := by
  rw [category?, index_of_build h]
  exact toList_lookup (nodup_names_of_build h) name

theorem category?_of_mem (h : build rows = .ok c) {category : Category}
    (hmem : category ∈ c.categories) : c.category? category.name = some category := by
  rw [← Option.toList_eq_singleton_iff, toList_category? h]
  exact filter_key_eq_singleton (nodup_names_of_build h) hmem

theorem category?_eq_none_iff (h : build rows = .ok c) {name : String} :
    c.category? name = none ↔ name ∉ c.categories.map (·.name) := by
  rw [← Option.toList_eq_nil_iff, toList_category? h, List.filter_eq_nil_iff]
  simp

/-- The subcategory of a name is the one that is listed under it. -/
theorem toList_subcategory? (h : build rows = .ok c) {category : Category}
    (hmem : category ∈ c.categories) (name : String) :
    (category.subcategory? name).toList = category.subcategories.filter (·.name == name) := by
  rw [Category.subcategory?, index_category_of_build h hmem]
  exact toList_lookup (nodup_subcategories_of_build h hmem) name

end Catalog

end EmojiCatalog
