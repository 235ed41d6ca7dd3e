/-!
Sums along a list.

`sumOf f xs` adds up the numbers that `f` gives for the elements of `xs`.  Appending lists adds
their sums, so a sum does not depend on how a list was put together.
-/

namespace EmojiCatalog

variable {α : Type}

/-- The sum of the values of a function along a list. -/
def sumOf (f : α → Nat) : List α → Nat
  | [] => 0
  | x :: xs => f x + sumOf f xs

@[simp] theorem sumOf_nil (f : α → Nat) : sumOf f [] = 0 := rfl

@[simp] theorem sumOf_cons (f : α → Nat) (x : α) (xs : List α) :
    sumOf f (x :: xs) = f x + sumOf f xs := rfl

@[simp] theorem sumOf_append (f : α → Nat) (xs ys : List α) :
    sumOf f (xs ++ ys) = sumOf f xs + sumOf f ys := by
  induction xs with
  | nil => simp
  | cons x xs ih => rw [List.cons_append, sumOf_cons, sumOf_cons, ih, Nat.add_assoc]

theorem sumOf_map {β : Type} (f : β → Nat) (g : α → β) (xs : List α) :
    sumOf f (xs.map g) = sumOf (fun x => f (g x)) xs := by
  induction xs with
  | nil => rfl
  | cons x xs ih => rw [List.map_cons, sumOf_cons, sumOf_cons, ih]

theorem sumOf_const (n : Nat) (xs : List α) : sumOf (fun _ => n) xs = xs.length * n := by
  induction xs with
  | nil => rw [sumOf_nil, List.length_nil, Nat.zero_mul]
  | cons x xs ih => rw [sumOf_cons, ih, List.length_cons, Nat.succ_mul, Nat.add_comm]

theorem sumOf_le_sumOf {f g : α → Nat} {xs : List α} (h : ∀ x ∈ xs, f x ≤ g x) :
    sumOf f xs ≤ sumOf g xs := by
  induction xs with
  | nil => exact Nat.le_refl 0
  | cons x xs ih =>
    rw [sumOf_cons, sumOf_cons]
    exact Nat.add_le_add (h x List.mem_cons_self) (ih fun y hy => h y (List.mem_cons_of_mem x hy))

theorem sumOf_congr {f g : α → Nat} {xs : List α} (h : ∀ x ∈ xs, f x = g x) :
    sumOf f xs = sumOf g xs :=
  Nat.le_antisymm (sumOf_le_sumOf fun x hx => Nat.le_of_eq (h x hx))
    (sumOf_le_sumOf fun x hx => Nat.le_of_eq (h x hx).symm)

/-- A sum gets smaller when one element is replaced by a smaller one. -/
theorem sumOf_set_lt {f : α → Nat} {xs : List α} {x y : α} {n : Nat} (hx : xs[n]? = some x)
    (h : f y < f x) : sumOf f (xs.set n y) < sumOf f xs := by
  induction xs generalizing n with
  | nil => cases hx
  | cons z xs ih =>
    cases n with
    | zero =>
      cases hx
      exact Nat.add_lt_add_right h _
    | succ n => exact Nat.add_lt_add_left (ih hx) _

theorem length_flatMap {β : Type} (f : α → List β) (xs : List α) :
    (xs.flatMap f).length = sumOf (fun x => (f x).length) xs := by
  induction xs with
  | nil => rfl
  | cons x xs ih => rw [List.flatMap_cons, List.length_append, ih, sumOf_cons]

theorem countP_flatMap {β : Type} (p : β → Bool) (f : α → List β) (xs : List α) :
    (xs.flatMap f).countP p = sumOf (fun x => (f x).countP p) xs := by
  induction xs with
  | nil => rfl
  | cons x xs ih => rw [List.flatMap_cons, List.countP_append, ih, sumOf_cons]

end EmojiCatalog
