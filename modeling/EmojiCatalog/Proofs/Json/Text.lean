import EmojiCatalog.Json.Text
/-!
Quoted text read back.

Every character is written in one of three ways (`escape_cases`): by a backslash and a letter, by a
backslash and the digits of its code unit, or as it is.  Reading undoes each of them and goes on
with what follows, so the text between the quotes is read back character by character, whatever
follows the closing quote (`readText_quoteTail`).  Characters beyond the first plane are written as
they are, so no pair of code units is ever written.
-/

namespace EmojiCatalog.Json

/-! ### One step of reading -/

variable {c d : Char} {cs rest : List Char}

theorem readBody_quote (rest : List Char) : readBody ('"' :: rest) = .ok ([], rest) := by
  rw [readBody, if_pos rfl]

theorem readBody_escape_of_readEscape (h : readEscape cs = .ok (d, rest)) :
    readBody ('\\' :: cs) = (readBody rest).map fun p => (d :: p.1, p.2) := by
  rw [readBody, if_neg (by decide), if_pos rfl]
  split
  next p hp => cases h.symm.trans hp
  next d' rest' hp =>
    obtain ⟨rfl, rfl⟩ : d = d' ∧ rest = rest' := by simpa using h.symm.trans hp
    rfl

theorem readBody_plain (hquote : c ≠ '"') (hslash : c ≠ '\\') (hcontrol : ¬c.toNat < 32) :
    readBody (c :: rest) = (readBody rest).map fun p => (c :: p.1, p.2) := by
  rw [readBody, if_neg hquote, if_neg hslash, if_neg]
  simpa [isControl] using hcontrol

/-! ### Escapes -/

theorem readEscape_of_shortEscape (h : shortEscape? c = some d) :
    readEscape (c :: rest) = .ok (d, rest) := by
  rw [readEscape, h]

theorem hexValue_hexDigit : ∀ n < 16, hexValue? (hexDigit n) = some n := by decide

theorem readUnit_hexDigits {a b : Nat} (ha : a < 16) (hb : b < 16) (rest : List Char) :
    readUnit ('0' :: '0' :: hexDigit a :: hexDigit b :: rest) = .ok (a * 16 + b, rest) := by
  have hzero : hexValue? '0' = some 0 := by decide
  simp only [readUnit, hzero, hexValue_hexDigit a ha, hexValue_hexDigit b hb, Nat.zero_mul,
    Nat.zero_add]

/-- The digits of a control character stand for that character. -/
theorem readEscape_control (h : c.toNat < 32) (rest : List Char) :
    readEscape ('u' :: '0' :: '0' :: hexDigit (c.toNat / 16) :: hexDigit (c.toNat % 16) :: rest)
      = .ok (c, rest) := by
  have hunit := readUnit_hexDigits (a := c.toNat / 16) (b := c.toNat % 16) (by omega)
    (Nat.mod_lt _ (by decide)) rest
  have hcode : c.toNat / 16 * 16 + c.toNat % 16 = c.toNat := by omega
  -- the code unit of a control character is no half of a pair
  have htrailing : isTrailing c.toNat = false := by simp [isTrailing]; omega
  have hleading : isLeading c.toNat = false := by simp [isLeading]; omega
  rw [hcode] at hunit
  have hshort : shortEscape? 'u' = none := rfl
  simp only [readEscape, hshort, if_true, readUnits, hunit, bind, Except.bind, htrailing, hleading,
    Char.ofNat_toNat]
  rfl

/-! ### Whole texts -/

/-- How a character is written between quotes. -/
theorem escape_cases (c : Char) :
    (∃ e, escape c = ['\\', e] ∧ shortEscape? e = some c) ∨
      (c.toNat < 32 ∧ escape c
        = ['\\', 'u', '0', '0', hexDigit (c.toNat / 16), hexDigit (c.toNat % 16)]) ∨
      (escape c = [c] ∧ c ≠ '"' ∧ c ≠ '\\' ∧ ¬c.toNat < 32) := by
  unfold escape
  split
  next h => exact .inl ⟨_, rfl, by rw [h]; rfl⟩
  next hquote =>
  split
  next h => exact .inl ⟨_, rfl, by rw [h]; rfl⟩
  next hslash =>
  split
  next h => exact .inl ⟨_, rfl, by rw [h]; rfl⟩
  split
  next h => exact .inl ⟨_, rfl, by rw [h]; rfl⟩
  split
  next h => exact .inl ⟨_, rfl, by rw [h]; rfl⟩
  split
  next h => exact .inl ⟨_, rfl, by rw [h]; rfl⟩
  split
  next h => exact .inl ⟨_, rfl, by rw [h]; rfl⟩
  split
  next h => exact .inr (.inl ⟨h, rfl⟩)
  next h => exact .inr (.inr ⟨rfl, hquote, hslash, h⟩)

/-- Reading undoes the writing of one character. -/
theorem readBody_escape_append (c : Char) (rest : List Char) :
    readBody (escape c ++ rest) = (readBody rest).map fun p => (c :: p.1, p.2) := by
  obtain ⟨e, he, hshort⟩ | ⟨hcontrol, he⟩ | ⟨he, hquote, hslash, hcontrol⟩ := escape_cases c
  · rw [he]
    exact readBody_escape_of_readEscape (readEscape_of_shortEscape hshort)
  · rw [he]
    exact readBody_escape_of_readEscape (readEscape_control hcontrol rest)
  · rw [he]
    exact readBody_plain hquote hslash hcontrol

theorem readBody_flatMap_escape (cs rest : List Char) :
    readBody (cs.flatMap escape ++ '"' :: rest) = .ok (cs, rest) := by
  induction cs with
  | nil => exact readBody_quote rest
  | cons c cs ih =>
    rw [List.flatMap_cons, List.append_assoc, readBody_escape_append, ih]
    rfl

/-- The text after its opening quote. -/
def quoteTail (s : String) : List Char := s.toList.flatMap escape ++ ['"']

/-- A quoted text is read back. -/
theorem readText_quoteTail (s : String) (rest : List Char) :
    readText (quoteTail s ++ rest) = .ok (s, rest) := by
  rw [readText, quoteTail, List.append_assoc, List.singleton_append, readBody_flatMap_escape]
  show Except.ok (String.ofList s.toList, rest) = _
  rw [String.ofList_toList]

end EmojiCatalog.Json
