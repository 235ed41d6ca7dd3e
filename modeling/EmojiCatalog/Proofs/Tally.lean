import EmojiCatalog.Tally
/-!
Tallies of lists.

Counting the categories of a list gives a tally that says of each category how often it is in the
list, and lists no others.  Such a tally verifies: counting a category adds one to the sum of the
counts and to the total alike.  The order of the list makes no difference (`ofNames_perm`), because
a tally lists its counts by category, however it came by them.
-/

namespace EmojiCatalog

/-! ### One more -/

theorem sumOf_alterSorted_succ (k : String) (l : List (String × Nat)) :
    sumOf id ((alterSorted k (fun n => n.getD 0 + 1) l).map Prod.snd)
      = sumOf id (l.map Prod.snd) + 1 := by
  induction l with
  | nil => rfl
  | cons p rest ih =>
    obtain ⟨k', v⟩ := p
    unfold alterSorted
    split
    · show v + 1 + sumOf id (rest.map Prod.snd) = v + sumOf id (rest.map Prod.snd) + 1
      omega
    · split
      · show 0 + 1 + (v + sumOf id (rest.map Prod.snd)) = v + sumOf id (rest.map Prod.snd) + 1
        omega
      · rw [List.map_cons, sumOf_cons, ih]
        rfl

namespace Tally

theorem sum_increment (t : Tally) (c : String) : (t.increment c).sum = t.sum + 1 :=
  sumOf_alterSorted_succ c t.counts.entries

theorem count_increment (t : Tally) (c d : String) :
    (t.increment c).count d = t.count d + [c].count d := by
  by_cases h : d = c
  · subst h
    rw [count_increment_self, List.count_singleton_self]
  · have hcd : ¬(c == d) = true := by simpa using fun hcd => h hcd.symm
    rw [count_increment_of_ne t h, List.count_singleton, if_neg hcd]
    rfl

/-! ### Many -/

theorem count_cons_eq_add {β : Type} [BEq β] (x y : β) (l : List β) :
    (x :: l).count y = [x].count y + l.count y :=
  (List.count_append : ([x] ++ l).count y = _)

variable (t : Tally) (names : List String)

theorem incrementAll_cons (name : String) :
    t.incrementAll (name :: names) = (t.increment name).incrementAll names := rfl

theorem incrementAll_append (later : List String) :
    t.incrementAll (names ++ later) = (t.incrementAll names).incrementAll later :=
  List.foldl_append

theorem total_incrementAll : (t.incrementAll names).total = t.total + names.length := by
  induction names generalizing t with
  | nil => rfl
  | cons name names ih =>
    rw [incrementAll_cons, ih, total_increment, List.length_cons]
    omega

theorem sum_incrementAll : (t.incrementAll names).sum = t.sum + names.length := by
  induction names generalizing t with
  | nil => rfl
  | cons name names ih =>
    rw [incrementAll_cons, ih, sum_increment, List.length_cons]
    omega

theorem count_incrementAll (c : String) :
    (t.incrementAll names).count c = t.count c + names.count c := by
  induction names generalizing t with
  | nil => rfl
  | cons name names ih =>
    rw [incrementAll_cons, ih, count_increment, Nat.add_assoc, ← count_cons_eq_add]

theorem mem_keys_incrementAll (c : String) :
    c ∈ (t.incrementAll names).counts.keys ↔ c ∈ t.counts.keys ∨ c ∈ names := by
  induction names generalizing t with
  | nil => simp [incrementAll]
  | cons name names ih =>
    rw [incrementAll_cons, ih, increment, KeyMap.mem_keys_alter, List.mem_cons]
    constructor
    · rintro ((h | h) | h)
      · exact .inr (.inl h)
      · exact .inl h
      · exact .inr (.inr h)
    · rintro (h | h | h)
      · exact .inl (.inr h)
      · exact .inl (.inl h)
      · exact .inr h

/-! ### From nothing -/

/-- The tally of a list of categories. -/
def ofNames (names : List String) : Tally := empty.incrementAll names

@[simp] theorem total_ofNames : (ofNames names).total = names.length :=
  (total_incrementAll empty names).trans (Nat.zero_add _)

@[simp] theorem count_ofNames (c : String) : (ofNames names).count c = names.count c :=
  (count_incrementAll empty names c).trans (Nat.zero_add _)

/-- Exactly the categories that were counted are listed. -/
theorem mem_keys_ofNames (c : String) :
    c ∈ (ofNames names).counts.keys ↔ 0 < (ofNames names).count c := by
  rw [ofNames, mem_keys_incrementAll, ← ofNames, count_ofNames, List.count_pos_iff]
  constructor
  · rintro (h | h)
    · cases h
    · exact h
  · exact .inr

/-- A tally that was counted verifies. -/
theorem verify_ofNames : (ofNames names).verify = .ok () := by
  have hsum : (ofNames names).sum = (ofNames names).total := by
    rw [total_ofNames, ofNames, sum_incrementAll]
    exact Nat.zero_add _
  rw [verify, if_pos hsum]

/-! ### In any order -/

theorem increment_comm (c d : String) :
    (t.increment c).increment d = (t.increment d).increment c := by
  by_cases h : c = d
  · rw [h]
  · simp only [increment, KeyMap.alter_comm _ _ _ h]

/-- Counting goes by how often each category is in the list, not by the order. -/
theorem ofNames_perm {names names' : List String} (h : names.Perm names') :
    ofNames names = ofNames names' :=
  h.foldl_eq' (fun c _ d _ t => increment_comm t c d) empty

/-! ### Growing -/

/-- No count of the first tally is above that of the second, nor is its total. -/
def IsWithin (t u : Tally) : Prop := (∀ c, t.count c ≤ u.count c) ∧ t.total ≤ u.total

theorem isWithin_ofNames_append (later : List String) :
    (ofNames names).IsWithin (ofNames (names ++ later)) := by
  constructor
  · intro c
    rw [count_ofNames, count_ofNames, List.count_append]
    exact Nat.le_add_right _ _
  · rw [total_ofNames, total_ofNames, List.length_append]
    exact Nat.le_add_right _ _

end Tally

end EmojiCatalog
