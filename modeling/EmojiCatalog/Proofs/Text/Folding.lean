import EmojiCatalog.Proofs.Text.Lowercase
/-!
Lowercasing twice.

A lowercased text is its own lowercase form (`lowercase_lowercase`).  This is a property of the case
table: what a capital is replaced by must not be a capital in turn.  Comparing all capitals with all
replacements would mean to go through some fourteen hundred of each.  It is enough to compare the
runs of the table in pairs, since the replacements of a run are apart from the capitals of another
when they lie in another range, or when both runs take every second code point and are out of step
(`CaseRun.isApartFrom`).

The two characters outside the table need a look of their own.  `İ` is no replacement, and the two
characters that it becomes are left alone.  A capital sigma becomes one of the two small ones, which
have no context any more; hence the text around a character makes no difference the second time.
-/

namespace EmojiCatalog.Text

/-! ### Runs of the case table -/

namespace CaseRun

/-- A run with at most one capital, or with every second code point only. -/
def isSparse (r : CaseRun) : Bool := r.last ≤ r.first || r.step == 2

/-- Whether the replacements of a run are seen to be no capitals of another. -/
def isApartFrom (r s : CaseRun) : Bool :=
  s.last.blt r.image || (r.image + (r.last - r.first)).blt s.first
    || (r.isSparse && s.step == 2 && (r.image + s.first) % 2 == 1)

/-- Whether the replacements of a run are seen to be lowercase: none is a capital in ASCII, nor `İ`,
nor a capital of the table. -/
def isSettled (r : CaseRun) : Bool :=
  0x5A < r.image && (r.image + (r.last - r.first) < 0x130 || 0x130 < r.image)
    && capitals.all r.isApartFrom

variable {r s : CaseRun} {n : Nat}

theorem covers_iff : r.covers n = true ↔ r.first ≤ n ∧ n ≤ r.last ∧ (n - r.first) % r.step = 0 := by
  simp only [covers, Bool.and_eq_true, decide_eq_true_eq, beq_iff_eq, and_assoc]

/-- The replacements of a run stay within its range. -/
theorem lower_mem_range (h : r.covers n = true) :
    r.image ≤ r.lower n ∧ r.lower n ≤ r.image + (r.last - r.first) := by
  obtain ⟨hfirst, hlast, -⟩ := covers_iff.mp h
  unfold lower
  omega

/-- In a sparse run the replacement of a capital is an even distance from that of the first. -/
theorem even_lower_sub_image (h : r.covers n = true) (hsparse : r.isSparse = true) :
    (r.lower n - r.image) % 2 = 0 := by
  obtain ⟨hfirst, hlast, hstep⟩ := covers_iff.mp h
  simp only [isSparse, Bool.or_eq_true, decide_eq_true_eq, beq_iff_eq] at hsparse
  unfold lower
  rcases hsparse with hsingle | htwo
  · omega
  · rw [htwo] at hstep
    omega

theorem not_covers_lower (hapart : r.isApartFrom s = true) (h : r.covers n = true) :
    ¬s.covers (r.lower n) = true := by
  obtain ⟨hlow, hhigh⟩ := lower_mem_range h
  simp only [isApartFrom, Bool.or_eq_true, Bool.and_eq_true, Nat.blt_eq, beq_iff_eq] at hapart
  rw [covers_iff]
  rintro ⟨hfirst, hlast, hstep⟩
  rcases hapart with (habove | hbelow) | ⟨⟨hsparse, htwo⟩, hodd⟩
  · omega
  · omega
  · have heven := even_lower_sub_image h hsparse
    rw [htwo] at hstep
    omega

end CaseRun

/-- **No replacement of the case table is a capital.** -/
theorem isSettled_of_mem_capitals : ∀ r ∈ capitals, r.isSettled = true := by
  decide +kernel

/-! ### Code points -/

/-- Nothing in the table covers the code point, so it is kept, unless it is a capital in ASCII. -/
theorem lowerCodePoint_of_not_covered {n : Nat} (h : 0x5A < n)
    (hnone : ∀ s ∈ capitals, ¬s.covers n = true) : lowerCodePoint n = n := by
  unfold lowerCodePoint
  split
  · rw [if_neg]
    simp only [Bool.and_eq_true, decide_eq_true_eq]
    omega
  · rw [List.find?_eq_none.mpr hnone]

/-- A code point is kept, becomes a small letter in ASCII, or is replaced by a run of the table. -/
theorem lowerCodePoint_cases (n : Nat) :
    lowerCodePoint n = n ∨ (0x60 < lowerCodePoint n ∧ lowerCodePoint n ≤ 0x7A) ∨
      ∃ r ∈ capitals, r.covers n = true ∧ lowerCodePoint n = r.lower n := by
  unfold lowerCodePoint
  split
  · split
    next hcapital =>
      simp only [Bool.and_eq_true, decide_eq_true_eq] at hcapital
      omega
    next => exact .inl rfl
  · split
    next r hr =>
      have hcovers : r.covers n = true := by
        simpa using List.find?_some hr
      exact .inr (.inr ⟨r, List.mem_of_find?_eq_some hr, hcovers, rfl⟩)
    next => exact .inl rfl

theorem lowerCodePoint_lowerCodePoint (n : Nat) :
    lowerCodePoint (lowerCodePoint n) = lowerCodePoint n := by
  rcases lowerCodePoint_cases n with h | ⟨hlow, hhigh⟩ | ⟨r, hr, hcovers, h⟩
  · rw [h, h]
  · generalize lowerCodePoint n = m at *
    unfold lowerCodePoint
    rw [if_pos (by omega), if_neg]
    simp only [Bool.and_eq_true, decide_eq_true_eq]
    omega
  · have hsettled := isSettled_of_mem_capitals r hr
    simp only [CaseRun.isSettled, Bool.and_eq_true, decide_eq_true_eq, List.all_eq_true]
      at hsettled
    obtain ⟨⟨hascii, -⟩, hapart⟩ := hsettled
    have hrange := CaseRun.lower_mem_range hcovers
    rw [h]
    exact lowerCodePoint_of_not_covered (by omega)
      fun s hs => CaseRun.not_covers_lower (hapart s hs) hcovers

/-- Only `İ` itself has the code point of `İ` as its replacement. -/
theorem eq_dotted_of_lowerCodePoint {n : Nat} (h : lowerCodePoint n = 0x130) : n = 0x130 := by
  rcases lowerCodePoint_cases n with hkept | ⟨-, hhigh⟩ | ⟨r, hr, hcovers, hlower⟩
  · rw [← hkept, h]
  · omega
  · have hsettled := isSettled_of_mem_capitals r hr
    simp only [CaseRun.isSettled, Bool.and_eq_true, Bool.or_eq_true, decide_eq_true_eq]
      at hsettled
    have hrange := CaseRun.lower_mem_range hcovers
    omega

/-! ### Characters -/

/-- A character that lowercasing keeps wherever it stands. -/
def IsKept (c : Char) : Prop := c ≠ capitalSigma ∧ lowerChar c = [c]

instance (c : Char) : Decidable (IsKept c) := inferInstanceAs (Decidable (_ ∧ _))

/-- A character whose code point is kept is kept, except `İ`. -/
theorem isKept_of_lowerCodePoint {c : Char} (hdotted : c ≠ dottedCapitalI)
    (h : lowerCodePoint c.toNat = c.toNat) : IsKept c := by
  constructor
  · rintro rfl
    exact absurd h (by decide +kernel)
  · rw [lowerChar, if_neg hdotted, h, Char.ofNat_toNat]

/-- What a character becomes is kept. -/
theorem isKept_of_mem_lowerChar {c d : Char} (h : d ∈ lowerChar c) : IsKept d := by
  unfold lowerChar at h
  split at h
  next =>
    rw [List.mem_cons, List.mem_singleton] at h
    rcases h with rfl | rfl <;> decide +kernel
  next hdotted =>
    rw [List.mem_singleton] at h
    by_cases hvalid : (lowerCodePoint c.toNat).isValidChar
    · have hcode : d.toNat = lowerCodePoint c.toNat := by
        rw [h, Char.ofNat, dif_pos hvalid]
        rfl
      refine isKept_of_lowerCodePoint ?_ (by rw [hcode, lowerCodePoint_lowerCodePoint])
      rintro rfl
      have hn := eq_dotted_of_lowerCodePoint hcode.symm
      exact hdotted (Char.toNat_inj.mp hn)
    · -- a code point of no character stands for the null character
      have hnull : d = Char.ofNat 0 := by
        rw [h, Char.ofNat, dif_neg hvalid]
        rfl
      rw [hnull]
      decide +kernel

theorem isKept_lowerSigma (before after : List Char) : IsKept (lowerSigma before after) := by
  unfold lowerSigma
  split
  · decide +kernel
  · decide +kernel

/-! ### Texts -/

theorem isKept_of_mem_lowercaseAux {before cs : List Char} {d : Char}
    (h : d ∈ lowercaseAux before cs) : IsKept d := by
  induction cs generalizing before with
  | nil => cases h
  | cons c cs ih =>
    rw [lowercaseAux, List.mem_append] at h
    rcases h with h | h
    · split at h
      next =>
        rw [List.mem_singleton.mp h]
        exact isKept_lowerSigma before cs
      next => exact isKept_of_mem_lowerChar h
    · exact ih h

theorem lowercaseAux_eq_self {before cs : List Char} (h : ∀ c ∈ cs, IsKept c) :
    lowercaseAux before cs = cs := by
  induction cs generalizing before with
  | nil => rfl
  | cons c cs ih =>
    obtain ⟨⟨hsigma, hlower⟩, hcs⟩ := List.forall_mem_cons.mp h
    rw [lowercaseAux, if_neg hsigma, hlower, ih hcs]
    rfl

theorem lowercaseChars_lowercaseChars (cs : List Char) :
    lowercaseChars (lowercaseChars cs) = lowercaseChars cs :=
  lowercaseAux_eq_self fun _ => isKept_of_mem_lowercaseAux

/-- **A lowercased text is its own lowercase form.** -/
theorem lowercase_lowercase (s : String) : lowercase (lowercase s) = lowercase s := by
  rw [lowercase, lowercase, String.toList_ofList, lowercaseChars_lowercaseChars]

theorem toList_lowercase (s : String) : (lowercase s).toList = lowercaseChars s.toList :=
  String.toList_ofList

/-- Only the empty text has an empty lowercase form. -/
theorem lowercase_eq_empty_iff {s : String} : lowercase s = "" ↔ s = "" := by
  constructor
  · intro h
    by_contra hs
    refine lowercaseChars_ne_nil hs ?_
    rw [← toList_lowercase, h]
    rfl
  · rintro rfl
    rfl

end EmojiCatalog.Text
