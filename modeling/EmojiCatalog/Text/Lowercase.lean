import EmojiCatalog.Text.CaseTable
/-!
Full Unicode lowercasing, the text folding under which names and queries are compared.

Every character is replaced by its lowercase form on its own, with two exceptions.  `İ` becomes
two characters, `i` and a combining dot.  A capital sigma becomes the final form `ς` at the end of
a word and `σ` elsewhere: it ends a word when, case-ignorable characters aside, a cased character
stands before it and none follows.

The context of a sigma is always read in the text as given, so `lowercaseAux` carries the
characters already passed, nearest first, beside those still to come.
-/

namespace EmojiCatalog.Text

/-! ### Single characters -/

/-- Whether the character is cased. -/
def isCased (c : Char) : Bool :=
  inRanges casedRanges c.toNat

/-- Whether the character is skipped when the surroundings of a sigma are read. -/
def isCaseIgnorable (c : Char) : Bool :=
  inRanges caseIgnorableRanges c.toNat

/-- Capital sigma. -/
def capitalSigma : Char := 'Σ'

/-- The small sigma used inside a word. -/
def medialSigma : Char := 'σ'

/-- The small sigma used at the end of a word. -/
def finalSigma : Char := 'ς'

/-- Capital I with a dot above, whose lowercase form is two characters. -/
def dottedCapitalI : Char := 'İ'

/-- The lowercase form of a code point that has one of a single character, and the code point
itself otherwise. -/
def lowerCodePoint (n : Nat) : Nat :=
  if n < 0x80 then
    if 0x41 ≤ n && n ≤ 0x5A then n + 0x20 else n
  else
    match capitals.find? (·.covers n) with
    | some run => run.lower n
    | none => n

/-- The lowercase form of a character regardless of its surroundings. -/
def lowerChar (c : Char) : List Char :=
  if c = dottedCapitalI then ['i', Char.ofNat 0x307] else [Char.ofNat (lowerCodePoint c.toNat)]

/-! ### Sigma in its context -/

/-- Whether the first character that is not case-ignorable is cased. -/
def startsCased (cs : List Char) : Bool :=
  match cs.dropWhile isCaseIgnorable with
  | [] => false
  | c :: _ => isCased c

/-- The small sigma for a capital one, given what stands before it (nearest first) and after it. -/
def lowerSigma (before after : List Char) : Char :=
  if startsCased before && !startsCased after then finalSigma else medialSigma

/-! ### Whole texts -/

/-- Lowercases the characters to come, given those already passed, nearest first. -/
def lowercaseAux (before : List Char) : List Char → List Char
  | [] => []
  | c :: rest =>
    (if c = capitalSigma then [lowerSigma before rest] else lowerChar c)
      ++ lowercaseAux (c :: before) rest

/-- Lowercases a list of characters. -/
def lowercaseChars (cs : List Char) : List Char :=
  lowercaseAux [] cs

/-- Lowercases a text. -/
def lowercase (s : String) : String :=
  String.ofList (lowercaseChars s.toList)

end EmojiCatalog.Text
