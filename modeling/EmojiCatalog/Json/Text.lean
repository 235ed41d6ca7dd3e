import EmojiCatalog.SumOf
/-!
Quoted text of JSON.

`escape` writes one character: the quote, the backslash and the control characters by an escape,
all others as they are.  `readBody` reads what stands between the quotes, and `skipBody` passes over
it.  Both stop at the first thing that is wrong, and tell a text that ends too early from one that
no continuation could mend.  They differ in one point: surrogates have to come in pairs to be read,
but not to be passed over.
-/

namespace EmojiCatalog.Json

/-- What is wrong with a text, as a reader that goes from left to right finds it. -/
inductive Problem where
  /-- The text ends too early. -/
  | early
  /-- The text is not JSON. -/
  | malformed
  /-- The text is JSON so far, but not of the expected shape. -/
  | mismatched
  deriving DecidableEq, Repr

/-- Reads a value from the start of a text, and gives it with the rest of the text. -/
abbrev Reader (α : Type) := List Char → Except Problem (α × List Char)

/-! ### Writing -/

/-- A digit of base sixteen. -/
def hexDigit (n : Nat) : Char := Nat.digitChar n

/-- A character as it is written between quotes. -/
def escape (c : Char) : List Char :=
  if c = '"' then ['\\', '"']
  else if c = '\\' then ['\\', '\\']
  else if c = '\x08' then ['\\', 'b']
  else if c = '\x0c' then ['\\', 'f']
  else if c = '\n' then ['\\', 'n']
  else if c = '\r' then ['\\', 'r']
  else if c = '\t' then ['\\', 't']
  else if c.toNat < 32 then ['\\', 'u', '0', '0', hexDigit (c.toNat / 16), hexDigit (c.toNat % 16)]
  else [c]

/-- A text with its quotes. -/
def quote (s : String) : List Char := '"' :: s.toList.flatMap escape ++ ['"']

/-! ### Escapes -/

/-- The value of a digit of base sixteen. -/
def hexValue? (c : Char) : Option Nat :=
  if '0' ≤ c ∧ c ≤ '9' then some (c.toNat - '0'.toNat)
  else if 'a' ≤ c ∧ c ≤ 'f' then some (c.toNat - 'a'.toNat + 10)
  else if 'A' ≤ c ∧ c ≤ 'F' then some (c.toNat - 'A'.toNat + 10)
  else none

/-- The number of bytes of some characters in UTF-8. -/
def utf8Length (cs : List Char) : Nat := sumOf Char.utf8Size cs

/-- Reads four digits of base sixteen.  Where fewer than four bytes are left, the text ends too
early whatever they are. -/
def readUnit (cs : List Char) : Except Problem (Nat × List Char) :=
  match cs with
  | a :: b :: c :: d :: rest =>
    match hexValue? a, hexValue? b, hexValue? c, hexValue? d with
    | some a, some b, some c, some d => .ok (((a * 16 + b) * 16 + c) * 16 + d, rest)
    | _, _, _, _ => .error .malformed
  | short => .error (if utf8Length short < 4 then .early else .malformed)

/-- Reads one given character. -/
def expect (c : Char) : List Char → Except Problem (List Char)
  | [] => .error .early
  | d :: rest => if d = c then .ok rest else .error .malformed

/-- The character that a letter stands for after a backslash. -/
def shortEscape? (c : Char) : Option Char :=
  match c with
  | '"' => some '"'
  | '\\' => some '\\'
  | '/' => some '/'
  | 'b' => some '\x08'
  | 'f' => some '\x0c'
  | 'n' => some '\n'
  | 'r' => some '\r'
  | 't' => some '\t'
  | _ => none

/-- Whether a code unit is the first half of a pair. -/
def isLeading (n : Nat) : Bool := 0xD800 ≤ n && n ≤ 0xDBFF

/-- Whether a code unit is the second half of a pair. -/
def isTrailing (n : Nat) : Bool := 0xDC00 ≤ n && n ≤ 0xDFFF

/-- The character that a pair of code units stands for. -/
def ofPair (leading trailing : Nat) : Char :=
  Char.ofNat (0x10000 + (leading - 0xD800) * 0x400 + (trailing - 0xDC00))

/-- Reads the digits of an escaped code unit, and a whole second escape after a first half. -/
def readUnits (cs : List Char) : Except Problem (Char × List Char) := do
  let (n, cs) ← readUnit cs
  if isTrailing n then .error .malformed
  else if !isLeading n then .ok (Char.ofNat n, cs)
  else
    let cs ← expect '\\' cs
    let cs ← expect 'u' cs
    let (m, cs) ← readUnit cs
    if isTrailing m then .ok (ofPair n m, cs) else .error .malformed

/-- Reads what follows a backslash. -/
def readEscape : Reader Char
  | [] => .error .early
  | c :: rest =>
    match shortEscape? c with
    | some d => .ok (d, rest)
    | none => if c = 'u' then readUnits rest else .error .malformed

/-- Passes over what follows a backslash. -/
def skipEscape : List Char → Except Problem (List Char)
  | [] => .error .early
  | c :: rest =>
    match shortEscape? c with
    | some _ => .ok rest
    | none => if c = 'u' then (readUnit rest).map Prod.snd else .error .malformed

/-! ### What an escape leaves is shorter -/

theorem length_of_readUnit {cs rest : List Char} {n : Nat} (h : readUnit cs = .ok (n, rest)) :
    rest.length < cs.length := by
  unfold readUnit at h
  split at h
  · split at h
    · cases h; simp; omega
    · cases h
  · cases h

theorem length_of_expect {c : Char} {cs rest : List Char} (h : expect c cs = .ok rest) :
    rest.length < cs.length := by
  cases cs with
  | nil => simp [expect] at h
  | cons d ds =>
    simp only [expect] at h
    split at h
    · cases h; simp
    · cases h

theorem length_of_readUnits {cs rest : List Char} {c : Char} (h : readUnits cs = .ok (c, rest)) :
    rest.length < cs.length := by
  unfold readUnits at h
  simp only [bind, Except.bind] at h
  split at h
  · cases h
  · next p h1 =>
    obtain ⟨n, ds⟩ := p
    have := length_of_readUnit h1
    dsimp only at h
    split at h
    · cases h
    · split at h
      · cases h; exact this
      · split at h
        · cases h
        · next h2 =>
          have := length_of_expect h2
          split at h
          · cases h
          · next h3 =>
            have := length_of_expect h3
            split at h
            · cases h
            · next p h4 =>
              obtain ⟨m, es⟩ := p
              have := length_of_readUnit h4
              dsimp only at h
              split at h
              · simp only [Except.ok.injEq, Prod.mk.injEq] at h
                obtain ⟨-, rfl⟩ := h
                omega
              · cases h

theorem length_of_readEscape {cs rest : List Char} {c : Char} (h : readEscape cs = .ok (c, rest)) :
    rest.length < cs.length := by
  cases cs with
  | nil => simp [readEscape] at h
  | cons d ds =>
    simp only [readEscape] at h
    split at h
    · cases h; simp
    · split at h
      · have := length_of_readUnits h
        simp; omega
      · cases h

theorem length_of_skipEscape {cs rest : List Char} (h : skipEscape cs = .ok rest) :
    rest.length < cs.length := by
  cases cs with
  | nil => simp [skipEscape] at h
  | cons d ds =>
    simp only [skipEscape] at h
    split at h
    · cases h; simp
    · split at h
      · cases hu : readUnit ds with
        | error p => simp [hu, Except.map] at h
        | ok q =>
          simp only [hu, Except.map, Except.ok.injEq] at h
          subst h
          have : q.2.length < ds.length := length_of_readUnit hu
          simp; omega
      · cases h

/-! ### Reading -/

/-- Whether a character must not stand between quotes. -/
def isControl (c : Char) : Bool := c.toNat < 32

/-- Reads the characters before the closing quote, and the quote. -/
def readBody (cs : List Char) : Except Problem (List Char × List Char) :=
  match cs with
  | [] => .error .early
  | c :: rest =>
    if c = '"' then .ok ([], rest)
    else if c = '\\' then
      match _h : readEscape rest with
      | .error p => .error p
      | .ok (d, rest') => (readBody rest').map fun p => (d :: p.1, p.2)
    else if isControl c then .error .malformed
    else (readBody rest).map fun p => (c :: p.1, p.2)
termination_by cs.length
decreasing_by
  · have := length_of_readEscape _h; simp; omega
  · simp

/-- Passes over the characters before the closing quote, and the quote. -/
def skipBody (cs : List Char) : Except Problem (List Char) :=
  match cs with
  | [] => .error .early
  | c :: rest =>
    if c = '"' then .ok rest
    else if c = '\\' then
      match _h : skipEscape rest with
      | .error p => .error p
      | .ok rest' => skipBody rest'
    else if isControl c then .error .malformed
    else skipBody rest
termination_by cs.length
decreasing_by
  · have := length_of_skipEscape _h; simp; omega
  · simp

/-- Reads a text after its opening quote. -/
def readText (cs : List Char) : Except Problem (String × List Char) :=
  (readBody cs).map fun p => (String.ofList p.1, p.2)

end EmojiCatalog.Json
