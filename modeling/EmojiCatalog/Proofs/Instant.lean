import EmojiCatalog.Instant
import Mathlib.Data.List.TakeWhile
import Mathlib.Algebra.Group.Nat.Defs
/-!
Instants read back.

Every valid instant is read back from its written form (`ofText?_text`).  The fields are written
with leading zeros to a fixed width, so a reader that takes no more digits than that takes just
these; only a year with a sign takes all digits, and a mark follows it.  A fraction has three, six
or nine digits and is scaled back to nanoseconds.  A leap second is written as the second 60 and
read back as one.
-/

namespace EmojiCatalog.Instant

variable {ds rest : List Char} {width n : Nat}

/-! ### Digits -/

theorem valueOf_append_eq (ds : List Char) (n : Nat) :
    ds.foldl (fun n c => n * 10 + (c.toNat - '0'.toNat)) n = Nat.ofDigitChars 10 ds n := by
  induction ds generalizing n with
  | nil => rfl
  | cons c ds ih => rw [List.foldl_cons, ih, Nat.ofDigitChars_cons, Nat.mul_comm]

theorem valueOf_padded (width n : Nat) : valueOf (padded width n) = n := by
  rw [padded, valueOf, List.foldl_append]
  generalize width - (Nat.toDigits 10 n).length = zeros
  have hzeros : (List.replicate zeros '0').foldl (fun n c => n * 10 + (c.toNat - '0'.toNat)) 0
      = 0 := by
    induction zeros with
    | zero => rfl
    | succ zeros ih =>
      rw [List.replicate_succ, List.foldl_cons]
      exact ih
  rw [hzeros, valueOf_append_eq, Nat.ofDigitChars_ten_toDigits]

theorem isDigit_of_mem_padded {c : Char} (h : c ∈ padded width n) : c.isDigit = true := by
  rcases List.mem_append.mp h with h | h
  · rw [List.eq_of_mem_replicate h]
    rfl
  · exact Nat.isDigit_of_mem_toDigits (by decide) (by decide) h

/-- A number that is not too large fills its field. -/
theorem length_padded (hwidth : 0 < width) (h : n < 10 ^ width) :
    (padded width n).length = width := by
  have hle := (Nat.length_toDigits_le_iff (by decide) hwidth).mpr h
  rw [padded, List.length_append, List.length_replicate]
  omega

theorem padded_ne_nil (width n : Nat) : padded width n ≠ [] :=
  List.append_ne_nil_of_right_ne_nil _ Nat.toDigits_ne_nil

theorem isBlank_of_isDigit {c : Char} (h : c.isDigit = true) : isBlank c = false := by
  simp only [Char.isDigit, Bool.and_eq_true, decide_eq_true_eq, UInt32.le_iff_toNat_le] at h
  have hcode : 48 ≤ c.toNat ∧ c.toNat ≤ 57 := h
  simp [isBlank]
  omega

theorem skipBlanks_padded (width n : Nat) (rest : List Char) :
    skipBlanks (padded width n ++ rest) = padded width n ++ rest := by
  obtain ⟨c, ds, hds⟩ := List.exists_cons_of_ne_nil (padded_ne_nil width n)
  have hmem : c ∈ padded width n := hds ▸ List.mem_cons_self
  have hc : isBlank c = false := isBlank_of_isDigit (isDigit_of_mem_padded hmem)
  rw [hds, List.cons_append, skipBlanks, List.dropWhile_cons, hc, if_neg Bool.false_ne_true]

/-! ### Fields -/

theorem readDigits?_padded (hwidth : 0 < width) (h : n < 10 ^ width) (rest : List Char) :
    readDigits? width (padded width n ++ rest) = some (n, rest) := by
  have hlength := length_padded hwidth h
  have hvalue := valueOf_padded width n
  have hne := padded_ne_nil width n
  have htake : ((padded width n ++ rest).take width).takeWhile Char.isDigit = padded width n := by
    rw [List.take_left' hlength, List.takeWhile_eq_self_iff]
    exact fun c hc => isDigit_of_mem_padded hc
  rw [readDigits?, htake]
  split
  next heq => exact absurd heq hne
  next => rw [hvalue, List.drop_left]

theorem readField?_padded (h : n < 100) (rest : List Char) :
    readField? (padded 2 n ++ rest) = some (n, rest) := by
  rw [readField?, skipBlanks_padded]
  exact readDigits?_padded (by decide) h rest

theorem readNumber?_padded (width n : Nat) (h : rest.head?.all (!·.isDigit)) :
    readNumber? (padded width n ++ rest) = some (n, rest) := by
  have hvalue := valueOf_padded width n
  have hne := padded_ne_nil width n
  have hnone : rest.takeWhile Char.isDigit = [] := by
    cases rest with
    | nil => rfl
    | cons c rest => exact List.takeWhile_cons_of_neg (by simpa using h)
  have htake : (padded width n ++ rest).takeWhile Char.isDigit = padded width n := by
    rw [List.takeWhile_append_of_pos fun c hc => isDigit_of_mem_padded hc, hnone, List.append_nil]
  rw [readNumber?, htake]
  split
  next heq => exact absurd heq hne
  next => rw [hvalue, List.drop_left]

theorem readMark?_cons (mark : Char) (h : isBlank mark = false) (rest : List Char) :
    readMark? mark (mark :: rest) = some rest := by
  rw [readMark?, skipBlanks, List.dropWhile_cons, h, if_neg Bool.false_ne_true]
  exact if_pos rfl

/-- A year is read back, with a sign or without. -/
theorem readYear?_yearText (year : Int) (rest : List Char) :
    readYear? (yearText year ++ '-' :: rest) = some (year, '-' :: rest) := by
  unfold yearText
  split
  next h =>
    have hsmall : year.toNat < 10 ^ 4 := by omega
    have hread := readDigits?_padded (by decide) hsmall ('-' :: rest)
    have hyear : (year.toNat : Int) = year := Int.toNat_of_nonneg h.1
    obtain ⟨c, ds, hds⟩ := List.exists_cons_of_ne_nil (padded_ne_nil 4 year.toNat)
    have hmem : c ∈ padded 4 year.toNat := hds ▸ List.mem_cons_self
    have hc : c.isDigit = true := isDigit_of_mem_padded hmem
    rw [readYear?, skipBlanks_padded]
    split
    next heq =>
      rw [hds] at heq
      rw [(List.cons.inj heq).1] at hc
      cases hc
    next heq =>
      rw [hds] at heq
      rw [(List.cons.inj heq).1] at hc
      cases hc
    next =>
      rw [hread, Option.map_some, hyear]
  next h =>
    have hread : readNumber? (padded 4 year.natAbs ++ '-' :: rest)
        = some (year.natAbs, '-' :: rest) :=
      readNumber?_padded 4 year.natAbs rfl
    split
    next hneg =>
      have hyear : -(year.natAbs : Int) = year := by omega
      show (readNumber? (padded 4 year.natAbs ++ '-' :: rest)).map _ = _
      rw [hread, Option.map_some, hyear]
    next hneg =>
      have hyear : (year.natAbs : Int) = year := by omega
      show (readNumber? (padded 4 year.natAbs ++ '-' :: rest)).map _ = _
      rw [hread, Option.map_some, hyear]

theorem readFraction?_padded {k : Nat} (hwidth : 0 < width) (hle : width ≤ 9) (hk : k < 10 ^ width)
    (rest : List Char) :
    readFraction? ('.' :: (padded width k ++ 'Z' :: rest))
      = some (k * Nat.pow 10 (9 - width), 'Z' :: rest) := by
  have hvalue := valueOf_padded width k
  have hne := padded_ne_nil width k
  have hlength := length_padded hwidth hk
  have htake : (padded width k ++ 'Z' :: rest).takeWhile Char.isDigit = padded width k := by
    rw [List.takeWhile_append_of_pos fun c hc => isDigit_of_mem_padded hc]
    exact List.append_nil _
  have hcounted : (padded width k).take 9 = padded width k :=
    List.take_of_length_le (Nat.le_trans (Nat.le_of_eq hlength) hle)
  rw [readFraction?, htake]
  split
  next heq => exact absurd heq hne
  next => simp only [hcounted, hvalue, hlength, List.drop_left' hlength]

/-- A fraction of a second is read back in nanoseconds. -/
theorem readFraction?_fractionText {nanos : Nat} (h : nanos < 1000000000) (rest : List Char) :
    readFraction? (fractionText nanos ++ 'Z' :: rest) = some (nanos, 'Z' :: rest) := by
  unfold fractionText
  split
  next hzero =>
    rw [hzero]
    rfl
  split
  next hmilli =>
    have hk : nanos / 1000000 < 10 ^ 3 := by omega
    have hnanos : nanos / 1000000 * Nat.pow 10 (9 - 3) = nanos := by
      show nanos / 1000000 * 1000000 = nanos
      omega
    exact (readFraction?_padded (by decide) (by decide) hk rest).trans (by rw [hnanos])
  split
  next hmicro =>
    have hk : nanos / 1000 < 10 ^ 6 := by omega
    have hnanos : nanos / 1000 * Nat.pow 10 (9 - 6) = nanos := by
      show nanos / 1000 * 1000 = nanos
      omega
    exact (readFraction?_padded (by decide) (by decide) hk rest).trans (by rw [hnanos])
  next =>
    have hnanos : nanos * Nat.pow 10 (9 - 9) = nanos := Nat.mul_one nanos
    exact (readFraction?_padded (by decide) (by decide) h rest).trans (by rw [hnanos])

/-! ### Whole instants -/

variable {t : Instant}

/-- What makes an instant valid. -/
theorem isValid_iff : t.isValid = true ↔
    isDate t.year t.month t.day = true ∧ t.hour < 24 ∧ t.minute < 60 ∧ t.second < 60 ∧
      (t.nanos < 1000000000 ∨ t.second = 59 ∧ t.nanos < 2000000000) := by
  simp only [isValid, Bool.and_eq_true, Bool.or_eq_true, decide_eq_true_eq, beq_iff_eq, and_assoc]

theorem daysIn_le (year : Int) (month : Nat) : daysIn year month ≤ 31 := by
  unfold daysIn
  split <;> try decide
  split <;> decide

theorem le_of_isDate (h : isDate t.year t.month t.day = true) : t.month ≤ 12 ∧ t.day ≤ 31 := by
  simp only [isDate, Bool.and_eq_true, decide_eq_true_eq] at h
  exact ⟨h.1.1.2, Nat.le_trans h.2 (daysIn_le _ _)⟩

theorem readDate?_append (h : isDate t.year t.month t.day = true) (rest : List Char) :
    readDate? (yearText t.year ++ '-' :: (padded 2 t.month ++ '-' :: (padded 2 t.day ++ rest)))
      = some ((t.year, t.month, t.day), rest) := by
  obtain ⟨hmonth, hday⟩ := le_of_isDate h
  simp only [readDate?, readYear?_yearText, readMark?_cons '-' rfl,
    readField?_padded (n := t.month) (by omega), readField?_padded (n := t.day) (by omega),
    Option.bind_eq_bind, Option.bind_some]
  rfl

theorem readTime?_append (second nanos : Nat) (hhour : t.hour < 24) (hminute : t.minute < 60)
    (hsecond : second ≤ 60) (hnanos : nanos < 1000000000) (rest : List Char) :
    readTime? (padded 2 t.hour ++ ':' :: (padded 2 t.minute ++ ':' ::
        (padded 2 second ++ (fractionText nanos ++ 'Z' :: rest))))
      = some ((t.hour, t.minute, second, nanos), 'Z' :: rest) := by
  simp only [readTime?, readMark?_cons ':' rfl,
    readField?_padded (n := t.hour) (by omega), readField?_padded (n := t.minute) (by omega),
    readField?_padded (n := second) (by omega), readFraction?_fractionText hnanos,
    Option.bind_eq_bind, Option.bind_some]
  rfl

/-- A second past the last one of a minute stands for a leap second. -/
theorem ofFields_eq (h : t.isValid = true) :
    ofFields (t.year, t.month, t.day)
      (t.hour, t.minute, t.second + t.nanos / 1000000000, t.nanos % 1000000000) = t := by
  obtain ⟨-, -, -, hsecond, hnanos | ⟨hlast, hnanos⟩⟩ := isValid_iff.mp h
  · have hsame : t.second + t.nanos / 1000000000 = t.second := by omega
    have hne : t.second ≠ 60 := by omega
    simp only [ofFields, hsame, if_neg hne, Nat.mod_eq_of_lt hnanos]
  · by_cases hleap : 1000000000 ≤ t.nanos
    · have hsixty : t.second + t.nanos / 1000000000 = 60 := by omega
      have hrest : t.nanos % 1000000000 + 1000000000 = t.nanos := by omega
      simp only [ofFields, hsixty, if_true, hrest]
      rw [← hlast]
    · have hsame : t.second + t.nanos / 1000000000 = t.second := by omega
      have hne : t.second ≠ 60 := by omega
      simp only [ofFields, hsame, if_neg hne, Nat.mod_eq_of_lt (Nat.lt_of_not_le hleap)]

theorem minusMinutes_zero (hhour : t.hour < 24) (hminute : t.minute < 60) :
    t.minusMinutes 0 = t := by
  have hlow : ¬(t.hour * 60 + t.minute : Int) - 0 < 0 := by omega
  have hhigh : ¬(1440 : Int) ≤ (t.hour * 60 + t.minute : Int) - 0 := by omega
  have hofDay : (((t.hour * 60 + t.minute : Int) - 0) % 1440).toNat
      = t.hour * 60 + t.minute := by omega
  have hquotient : (t.hour * 60 + t.minute) / 60 = t.hour := by omega
  have hremainder : (t.hour * 60 + t.minute) % 60 = t.minute := by omega
  simp only [minusMinutes, if_neg hlow, if_neg hhigh, hofDay, hquotient, hremainder]

/-- Every valid instant is read back from its written form. -/
theorem ofText?_text (h : t.isValid = true) : ofText? t.text = some t := by
  obtain ⟨hdate, hhour, hminute, hsecond, hnanos⟩ := isValid_iff.mp h
  have hread := readDate?_append hdate ('T' :: (padded 2 t.hour ++ ':' :: (padded 2 t.minute ++
    ':' :: (padded 2 (t.second + t.nanos / 1000000000) ++
      (fractionText (t.nanos % 1000000000) ++ ['Z'])))))
  have htime := readTime?_append (t.second + t.nanos / 1000000000) (t.nanos % 1000000000) hhour
    hminute (by omega) (Nat.mod_lt t.nanos (by decide)) []
  rw [ofText?, text, String.toList_ofList, chars, ofChars?]
  simp only [List.append_assoc, List.cons_append]
  have hzero : (0 : Int).natAbs < 1440 := by decide
  have hend : (skipBlanks []).isEmpty = true := rfl
  have hblank : skipBlanks ['Z'] = ['Z'] := rfl
  have hoffset : readOffset? ['Z'] = some (0, []) := rfl
  simp only [hread, Option.bind_eq_bind, Option.bind_some, readSeparator?, htime, hblank, hoffset,
    ofFields_eq h, minusMinutes_zero hhour hminute, hend, h, hzero, decide_true, Bool.and_self,
    if_true]
  rfl

/-- Whatever is read is a valid instant. -/
theorem isValid_of_ofText? {s : String} (h : ofText? s = some t) : t.isValid = true := by
  obtain ⟨⟨date, cs₁⟩, -, h⟩ := Option.bind_eq_some_iff.mp h
  obtain ⟨cs₂, -, h⟩ := Option.bind_eq_some_iff.mp h
  obtain ⟨⟨time, cs₃⟩, -, h⟩ := Option.bind_eq_some_iff.mp h
  obtain ⟨⟨offset, cs₄⟩, -, h⟩ := Option.bind_eq_some_iff.mp h
  dsimp only at h
  split at h
  next hvalid =>
    cases h
    simp only [Bool.and_eq_true] at hvalid
    exact hvalid.2
  next => cases h

end EmojiCatalog.Instant
