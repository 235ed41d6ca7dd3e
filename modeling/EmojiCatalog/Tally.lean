import EmojiCatalog.Fault
import EmojiCatalog.KeyMap
import EmojiCatalog.SumOf
/-!
Counts by category.

A tally holds a count for every category seen and a running total beside them.  Counting a category
raises both, so they agree in every tally that counting produces; `verify` checks that they agree in
a tally of any other origin.

The counts and the total are words of 64 bits in the program and numbers without a bound here; that
they stay below 2^64 is assumed.
-/

namespace EmojiCatalog

/-- A count for every category, and their total. -/
structure Tally where
  counts : KeyMap Nat
  total : Nat
  deriving DecidableEq

namespace Tally

/-- The tally of nothing. -/
def empty : Tally := ⟨.empty, 0⟩

instance : Inhabited Tally := ⟨empty⟩

/-- Counts a category once more. -/
def increment (t : Tally) (category : String) : Tally :=
  ⟨t.counts.alter category fun n => n.getD 0 + 1, t.total + 1⟩

/-- The count of a category; zero if it was never counted. -/
def count (t : Tally) (category : String) : Nat :=
  (t.counts.get? category).getD 0

/-- The sum of all counts. -/
def sum (t : Tally) : Nat := sumOf id t.counts.values

/-- Checks that the counts add up to the total. -/
def verify (t : Tally) : Except Fault Unit :=
  if t.sum = t.total then .ok () else .error (.invalidState (.sumMismatch t.sum t.total))

/-- The tally after counting some categories in order. -/
def incrementAll (t : Tally) (categories : List String) : Tally :=
  categories.foldl increment t

/-! ### Counting -/

theorem count_increment_self (t : Tally) (c : String) :
    (t.increment c).count c = t.count c + 1 := by
  simp [count, increment, KeyMap.get?_alter_self]

theorem count_increment_of_ne (t : Tally) {c d : String} (h : d ≠ c) :
    (t.increment c).count d = t.count d := by
  simp [count, increment, KeyMap.get?_alter_of_ne _ _ h]

@[simp] theorem total_increment (t : Tally) (c : String) :
    (t.increment c).total = t.total + 1 := rfl

end Tally

end EmojiCatalog
