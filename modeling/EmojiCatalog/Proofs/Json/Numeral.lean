import EmojiCatalog.Json.Skip
import Mathlib.Data.List.Basic
/-!
Whole numbers read back.

A whole number is written with its decimal digits, of which the first is no zero unless it is the
only one.  Reading appends digit after digit as long as the number fits in 64 bits.  A number that
fits is never cut short on the way, because every part of its digits stands for a smaller number
(`appendDigits_append`).  So it is read back from its digits and what follows, unless that would go
on as a number (`readNumeral_toDigits`).
-/

namespace EmojiCatalog.Json

/-- The text does not go on where a value has ended: it is over, or a blank, the next item or member
or the end of an array or object comes next. -/
def IsSeparated : List Char → Prop
  | [] => True
  | c :: _ => isBlank c = true ∨ c = ',' ∨ c = ']' ∨ c = '\x7d'

theorem eq_of_isBlank {c : Char} (h : isBlank c = true) :
    c = ' ' ∨ c = '\n' ∨ c = '\t' ∨ c = '\r' := by
  simpa only [isBlank, Bool.or_eq_true, decide_eq_true_eq, or_assoc] using h

variable {cs ds rest : List Char} {n significand : Nat}

/-- Nothing that stands between values goes on as a number. -/
theorem IsSeparated.head_ne {c : Char} (h : IsSeparated (c :: rest)) :
    c ≠ '.' ∧ c ≠ 'e' ∧ c ≠ 'E' ∧ c.isDigit = false := by
  obtain hblank | rfl | rfl | rfl := h
  · obtain rfl | rfl | rfl | rfl := eq_of_isBlank hblank <;> decide
  all_goals decide

/-! ### Digits -/

/-- Further digits do not make a number smaller. -/
theorem le_ofDigitChars (ds : List Char) (init : Nat) : init ≤ Nat.ofDigitChars 10 ds init := by
  rw [Nat.ofDigitChars_eq_ofDigitChars_zero]
  have hpos : 0 < 10 ^ ds.length := Nat.pow_pos (by decide)
  exact Nat.le_trans (Nat.le_mul_of_pos_left init hpos) (Nat.le_add_right _ _)

theorem appendDigits_of_isSeparated (h : IsSeparated rest) :
    appendDigits significand rest = (significand, 0, rest) := by
  cases rest with
  | nil => rfl
  | cons c rest =>
    obtain ⟨-, -, -, hdigit⟩ := h.head_ne
    rw [appendDigits, hdigit, Bool.false_and, if_neg Bool.false_ne_true]

/-- All digits of a number that fits are appended. -/
theorem appendDigits_append (hdigits : ∀ c ∈ ds, c.isDigit = true)
    (hfits : Nat.ofDigitChars 10 ds significand < wordLimit) (hrest : IsSeparated rest) :
    appendDigits significand (ds ++ rest)
      = (Nat.ofDigitChars 10 ds significand, ds.length, rest) := by
  induction ds generalizing significand with
  | nil => exact appendDigits_of_isSeparated hrest
  | cons c ds ih =>
    obtain ⟨hc, hds⟩ := List.forall_mem_cons.mp hdigits
    have hnext : significand * 10 + digitValue c = 10 * significand + (c.toNat - '0'.toNat) := by
      rw [Nat.mul_comm]
      rfl
    rw [Nat.ofDigitChars_cons, ← hnext] at hfits ⊢
    have hsmall : significand * 10 + digitValue c < wordLimit :=
      Nat.lt_of_le_of_lt (le_ofDigitChars ds _) hfits
    rw [List.cons_append, appendDigits]
    simp only [hc, hsmall, decide_true, Bool.and_self, if_true, ih hds hfits, List.length_cons]

/-- A number other than zero is not written with a zero in front. -/
theorem head_toDigits_ne_zero (hn : n ≠ 0) : (Nat.toDigits 10 n).head? ≠ some '0' := by
  induction n using Nat.strongRecOn with
  | _ n ih =>
    rw [Nat.toDigits_eq_if (by decide)]
    split
    next hlt =>
      have hdigit : ∀ d < 10, d ≠ 0 → Nat.digitChar d ≠ '0' := by decide
      exact fun h => hdigit n hlt hn (Option.some.inj h)
    next hle =>
      -- the first digit is that of the number without its last digit
      rw [List.head?_append_of_ne_nil _ Nat.toDigits_ne_nil]
      exact ih (n / 10) (by omega) (by omega)

/-! ### Numbers -/

theorem readTail_of_isSeparated (h : IsSeparated rest) :
    readTail false significand 0 rest = .ok (.whole significand, rest) := by
  cases rest with
  | nil => rfl
  | cons c rest =>
    obtain ⟨hpoint, he, hE, -⟩ := h.head_ne
    unfold readTail
    split
    next heq => exact absurd (List.cons.inj heq).1 hpoint
    next heq => exact absurd (List.cons.inj heq).1 he
    next heq => exact absurd (List.cons.inj heq).1 hE
    next => rfl

theorem readUnsigned_toDigits (h : n < wordLimit) (hrest : IsSeparated rest) :
    readUnsigned false (Nat.toDigits 10 n ++ rest) = .ok (.whole n, rest) := by
  have hdigits : ∀ c ∈ Nat.toDigits 10 n, c.isDigit = true :=
    fun c hc => Nat.isDigit_of_mem_toDigits (by decide) (by decide) hc
  have hvalue : Nat.ofDigitChars 10 (Nat.toDigits 10 n) 0 = n := Nat.ofDigitChars_ten_toDigits
  by_cases hn : n = 0
  · subst hn
    have hnone : startsWithDigit rest = false := by
      cases rest with
      | nil => rfl
      | cons c rest => exact hrest.head_ne.2.2.2
    show readUnsigned false ('0' :: rest) = _
    rw [readUnsigned, if_pos rfl, hnone, if_neg Bool.false_ne_true]
    exact readTail_of_isSeparated hrest
  · have hhead := head_toDigits_ne_zero hn
    generalize Nat.toDigits 10 n = ds at hdigits hvalue hhead
    cases ds with
    | nil => exact absurd hvalue.symm hn
    | cons c ds =>
      obtain ⟨hc, hds⟩ := List.forall_mem_cons.mp hdigits
      have hzero : c ≠ '0' := fun h => hhead (congrArg some h)
      rw [Nat.ofDigitChars_cons, Nat.mul_zero, Nat.zero_add] at hvalue
      have happend : appendDigits (digitValue c) (ds ++ rest) = (n, ds.length, rest) := by
        have hfits : Nat.ofDigitChars 10 ds (digitValue c) < wordLimit := hvalue ▸ h
        rw [appendDigits_append hds hfits hrest]
        exact congrArg (·, ds.length, rest) hvalue
      obtain ⟨htake, hdrop⟩ : rest.takeWhile Char.isDigit = [] ∧
          rest.dropWhile Char.isDigit = rest := by
        cases rest with
        | nil => exact ⟨rfl, rfl⟩
        | cons d rest => simp [hrest.head_ne.2.2.2]
      rw [List.cons_append, readUnsigned, if_neg hzero, if_pos hc, happend]
      show readTail false n (rest.takeWhile Char.isDigit).length (rest.dropWhile Char.isDigit) = _
      rw [htake, hdrop]
      exact readTail_of_isSeparated hrest

/-- The digits of a number begin with a digit. -/
theorem exists_toDigits_eq_cons (n : Nat) :
    ∃ c ds, Nat.toDigits 10 n = c :: ds ∧ c.isDigit = true := by
  cases h : Nat.toDigits 10 n with
  | nil => exact absurd h Nat.toDigits_ne_nil
  | cons c ds =>
    refine ⟨c, ds, rfl, Nat.isDigit_of_mem_toDigits (b := 10) (n := n) (by decide) (by decide) ?_⟩
    rw [h]
    exact List.mem_cons_self

/-- A whole number that fits is read back. -/
theorem readNumeral_toDigits (h : n < wordLimit) (hrest : IsSeparated rest) :
    readNumeral (Nat.toDigits 10 n ++ rest) = .ok (.whole n, rest) := by
  have hread := readUnsigned_toDigits h hrest
  obtain ⟨c, ds, hds, hc⟩ := exists_toDigits_eq_cons n
  rw [hds] at hread ⊢
  unfold readNumeral
  split
  next heq =>
    -- a sign is no digit
    rw [(List.cons.inj heq).1] at hc
    cases hc
  next => exact hread

end EmojiCatalog.Json
