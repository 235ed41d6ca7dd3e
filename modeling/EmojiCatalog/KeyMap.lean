/-!
Finite maps with text keys.

A map is its list of pairs in ascending key order, so two maps with the same contents are equal and
the order in which a map is listed is part of the type.  One operation changes a map: `alter`
replaces the value under a key by a function of what was there.  The lemmas describe it through
`get?` and through the list of values, and nothing else needs to unfold it.
-/

namespace EmojiCatalog

/-! ### Sorted lists of pairs -/

/-- Replaces the value under `k` by `f` of the value found there, and puts a missing key in its
place by ascending order. -/
def alterSorted {β : Type} (k : String) (f : Option β → β) :
    List (String × β) → List (String × β)
  | [] => [(k, f none)]
  | (k', v) :: rest =>
    if k = k' then (k', f (some v)) :: rest
    else if k < k' then (k, f none) :: (k', v) :: rest
    else (k', v) :: alterSorted k f rest

theorem mem_alterSorted_key {β : Type} {k : String} {f : Option β → β} {a : String}
    {l : List (String × β)} :
    a ∈ (alterSorted k f l).map Prod.fst ↔ a = k ∨ a ∈ l.map Prod.fst := by
  induction l with
  | nil => simp [alterSorted]
  | cons p rest ih =>
    obtain ⟨k', v⟩ := p
    simp only [alterSorted]
    split
    · next h => subst h; simp
    · split
      · simp
      · simp only [List.map_cons, List.mem_cons, ih]
        constructor
        · rintro (h | h | h) <;> simp [h]
        · rintro (h | h | h) <;> simp [h]

theorem lt_of_ne_of_not_lt {a b : String} (hne : a ≠ b) (hlt : ¬a < b) : b < a := by
  by_cases h : b < a
  · exact h
  · exact absurd (String.le_antisymm (String.not_lt.1 h) (String.not_lt.1 hlt)) hne

theorem ascending_alterSorted {β : Type} {k : String} {f : Option β → β}
    {l : List (String × β)} (h : (l.map Prod.fst).Pairwise (· < ·)) :
    ((alterSorted k f l).map Prod.fst).Pairwise (· < ·) := by
  induction l with
  | nil => simp [alterSorted]
  | cons p rest ih =>
    obtain ⟨k', v⟩ := p
    simp only [List.map_cons, List.pairwise_cons] at h
    simp only [alterSorted]
    split
    · next hk => subst hk; simpa using h
    · next hk =>
      split
      · next hlt =>
        simp only [List.map_cons, List.pairwise_cons, List.mem_cons]
        refine ⟨?_, h⟩
        rintro a (rfl | ha)
        · exact hlt
        · exact String.lt_trans hlt (h.1 a ha)
      · next hlt =>
        simp only [List.map_cons, List.pairwise_cons]
        refine ⟨?_, ih h.2⟩
        intro a ha
        rcases mem_alterSorted_key.1 ha with rfl | ha
        · exact lt_of_ne_of_not_lt hk hlt
        · exact h.1 a ha

/-! ### Maps -/

/-- A finite map with text keys, listed in ascending key order. -/
structure KeyMap (β : Type) where
  entries : List (String × β)
  ascending : (entries.map Prod.fst).Pairwise (· < ·)

namespace KeyMap

variable {β : Type}

@[ext] theorem ext {m n : KeyMap β} (h : m.entries = n.entries) : m = n := by
  cases m; cases n; cases h; rfl

instance [DecidableEq β] : DecidableEq (KeyMap β) := fun m n =>
  decidable_of_iff (m.entries = n.entries) ⟨ext, fun h => h ▸ rfl⟩

/-- The map with no keys. -/
def empty : KeyMap β := ⟨[], List.Pairwise.nil⟩

instance : Inhabited (KeyMap β) := ⟨empty⟩

/-- The value under a key. -/
def get? (m : KeyMap β) (k : String) : Option β :=
  m.entries.lookup k

/-- The keys, ascending. -/
def keys (m : KeyMap β) : List String :=
  m.entries.map Prod.fst

/-- The values, in the order of their keys. -/
def values (m : KeyMap β) : List β :=
  m.entries.map Prod.snd

/-- Replaces the value under `k` by `f` of what is there. -/
def alter (m : KeyMap β) (k : String) (f : Option β → β) : KeyMap β :=
  ⟨alterSorted k f m.entries, ascending_alterSorted m.ascending⟩

/-- Puts a value under a key, in place of any value already there. -/
def insert (m : KeyMap β) (k : String) (v : β) : KeyMap β :=
  m.alter k fun _ => v

/-- The map of a list of pairs, in which the last pair of a key counts. -/
def ofList (pairs : List (String × β)) : KeyMap β :=
  pairs.foldl (fun m p => m.insert p.1 p.2) empty

@[simp] theorem get?_empty (k : String) : (empty : KeyMap β).get? k = none := rfl

theorem lookup_eq_none_of_lt {l : List (String × β)} {k : String}
    (h : ∀ a ∈ l.map Prod.fst, k < a) : l.lookup k = none := by
  induction l with
  | nil => rfl
  | cons p rest ih =>
    obtain ⟨k', v⟩ := p
    have hk : k < k' := h k' (by simp)
    have hne : (k == k') = false := by
      simp only [beq_eq_false_iff_ne, ne_eq]
      rintro rfl
      exact String.lt_irrefl _ hk
    simp only [List.lookup_cons, hne]
    exact ih fun a ha => h a (by simp at ha ⊢; exact Or.inr ha)

theorem lookup_alterSorted_self {k : String} {f : Option β → β} {l : List (String × β)}
    (h : (l.map Prod.fst).Pairwise (· < ·)) :
    (alterSorted k f l).lookup k = some (f (l.lookup k)) := by
  induction l with
  | nil => simp [alterSorted]
  | cons p rest ih =>
    obtain ⟨k', v⟩ := p
    simp only [List.map_cons, List.pairwise_cons] at h
    simp only [alterSorted]
    split
    · next hk => subst hk; simp
    · next hk =>
      have hne : (k == k') = false := by simpa using hk
      split
      · next hlt =>
        have hnone : rest.lookup k = none :=
          lookup_eq_none_of_lt fun a ha => String.lt_trans hlt (h.1 a ha)
        simp [List.lookup_cons, hne, hnone]
      · simp only [List.lookup_cons, hne]
        exact ih h.2

theorem lookup_alterSorted_of_ne {k a : String} {f : Option β → β} {l : List (String × β)}
    (hne : a ≠ k) : (alterSorted k f l).lookup a = l.lookup a := by
  have ha : (a == k) = false := by simpa using hne
  induction l with
  | nil => simp [alterSorted, List.lookup_cons, ha]
  | cons p rest ih =>
    obtain ⟨k', v⟩ := p
    simp only [alterSorted]
    split
    · next hk => subst hk; simp [List.lookup_cons, ha]
    · split
      · simp [List.lookup_cons, ha]
      · simp only [List.lookup_cons, ih]

theorem get?_alter_self (m : KeyMap β) (k : String) (f : Option β → β) :
    (m.alter k f).get? k = some (f (m.get? k)) :=
  lookup_alterSorted_self m.ascending

theorem get?_alter_of_ne (m : KeyMap β) {k a : String} (f : Option β → β) (h : a ≠ k) :
    (m.alter k f).get? a = m.get? a :=
  lookup_alterSorted_of_ne h

theorem not_lt_of_lookup_eq_some {k k' : String} {v w : β} {l : List (String × β)}
    (hl : (((k', v) :: l).map Prod.fst).Pairwise (· < ·))
    (h : ((k', v) :: l).lookup k = some w) : ¬k < k' := by
  intro hlt
  have hnone : ((k', v) :: l).lookup k = none := by
    refine lookup_eq_none_of_lt fun a ha => ?_
    rcases List.mem_cons.1 ha with rfl | ha
    · exact hlt
    · exact String.lt_trans hlt ((List.pairwise_cons.1 hl).1 a ha)
  cases hnone.symm.trans h

/-- Sorted lists of pairs in which every key has the same value are equal. -/
theorem eq_of_lookup_eq {l₁ l₂ : List (String × β)} (h₁ : (l₁.map Prod.fst).Pairwise (· < ·))
    (h₂ : (l₂.map Prod.fst).Pairwise (· < ·)) (h : ∀ k, l₁.lookup k = l₂.lookup k) : l₁ = l₂ := by
  have hhead : ∀ (k : String) (v : β) rest, ((k, v) :: rest).lookup k = some v :=
    fun k v rest => by rw [List.lookup_cons, beq_self_eq_true]
  induction l₁ generalizing l₂ with
  | nil =>
    cases l₂ with
    | nil => rfl
    | cons p _ => cases (h p.1).trans (hhead p.1 p.2 _)
  | cons p rest₁ ih =>
    obtain ⟨k, v⟩ := p
    cases l₂ with
    | nil => cases (hhead k v rest₁).symm.trans (h k)
    | cons p' rest₂ =>
      obtain ⟨k', v'⟩ := p'
      have hv := (h k).symm.trans (hhead k v rest₁)
      have hv' := (h k').trans (hhead k' v' rest₂)
      -- neither of the first keys is before the other, so they are the same
      have hk : k = k' := String.le_antisymm (String.not_lt.1 (not_lt_of_lookup_eq_some h₁ hv'))
        (String.not_lt.1 (not_lt_of_lookup_eq_some h₂ hv))
      subst hk
      obtain rfl : v = v' := Option.some.inj (hv.symm.trans (hhead k v' rest₂))
      obtain ⟨hlt₁, hrest₁⟩ := List.pairwise_cons.1 h₁
      obtain ⟨hlt₂, hrest₂⟩ := List.pairwise_cons.1 h₂
      rw [ih hrest₁ hrest₂]
      intro a
      by_cases ha : a = k
      · rw [ha, lookup_eq_none_of_lt hlt₁, lookup_eq_none_of_lt hlt₂]
      · have hne : (a == k) = false := by simpa using ha
        simpa only [List.lookup_cons, hne] using h a

/-- Maps with the same values under all keys are equal. -/
theorem ext_get? {m n : KeyMap β} (h : ∀ k, m.get? k = n.get? k) : m = n :=
  ext (eq_of_lookup_eq m.ascending n.ascending h)

/-- Changes under different keys can be made in either order. -/
theorem alter_comm (m : KeyMap β) {a b : String} (f g : Option β → β) (hab : a ≠ b) :
    (m.alter a f).alter b g = (m.alter b g).alter a f := by
  refine ext_get? fun k => ?_
  by_cases ha : k = a
  · subst ha
    rw [get?_alter_of_ne _ _ hab, get?_alter_self, get?_alter_self, get?_alter_of_ne _ _ hab]
  · rw [get?_alter_of_ne _ f ha]
    by_cases hb : k = b
    · subst hb
      rw [get?_alter_self, get?_alter_self, get?_alter_of_ne _ _ hab.symm]
    · rw [get?_alter_of_ne _ _ hb, get?_alter_of_ne _ _ hb, get?_alter_of_ne _ _ ha]

/-- A key is listed exactly when there is a value under it. -/
theorem mem_keys_alter {m : KeyMap β} {k a : String} {f : Option β → β} :
    a ∈ (m.alter k f).keys ↔ a = k ∨ a ∈ m.keys :=
  mem_alterSorted_key

end KeyMap

end EmojiCatalog
