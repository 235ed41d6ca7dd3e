import EmojiCatalog.Json.Text
/-!
Numbers of JSON.

A numeral is a whole number when it is written with digits only and fits in 64 bits; every other
numeral is a real number.  The significand of a real number keeps the leading digits as long as they
fit in 64 bits: a digit before the point that no longer fits counts as a power of ten, a digit after
the point is forgotten.  The significand is then multiplied or divided by a power of ten in double
precision.  A numeral too large for double precision is not JSON.

Numbers that are only passed over are held to the grammar and to nothing else.
-/

namespace EmojiCatalog.Json

/-- A number as it is written. -/
inductive Numeral where
  | whole (n : Nat)
  | real (x : Float)

/-! ### Digits -/

/-- The value of a decimal digit. -/
def digitValue (c : Char) : Nat := c.toNat - '0'.toNat

/-- The value of some decimal digits. -/
def digitsValue (cs : List Char) : Nat := cs.foldl (fun n c => n * 10 + digitValue c) 0

/-- One more than the greatest whole number that fits in 64 bits. -/
def wordLimit : Nat := UInt64.size

/-- Appends digits to a significand as long as it fits in 64 bits.  The result is the significand,
the number of digits appended, and the rest of the text. -/
def appendDigits (significand : Nat) : List Char → Nat × Nat × List Char
  | [] => (significand, 0, [])
  | c :: rest =>
    let next := significand * 10 + digitValue c
    if c.isDigit && next < wordLimit then
      let (final, count, rest) := appendDigits next rest
      (final, count + 1, rest)
    else (significand, 0, c :: rest)

/-- Whether a text goes on with a digit. -/
def startsWithDigit : List Char → Bool
  | c :: _ => c.isDigit
  | [] => false

/-! ### Powers of ten in double precision -/

/-- The double nearest to a power of ten. -/
def powerOfTen (k : Nat) : Float := Float.ofScientific 1 false k

/-- A number times a power of ten, unless the product is too large. -/
def scale (x : Float) (exponent : Int) : Option Float :=
  if exponent < -308 then
    if x == 0.0 then some x else scale (x / powerOfTen 308) (exponent + 308)
  else if exponent < 0 then some (x / powerOfTen exponent.natAbs)
  else if 308 < exponent then
    if x == 0.0 then some x else none
  else
    let product := x * powerOfTen exponent.natAbs
    if product.isInf then none else some product
termination_by exponent.natAbs

/-- The number of a significand, a power of ten and a sign. -/
def compose (negative : Bool) (significand : Nat) (exponent : Int) (rest : List Char) :
    Except Problem (Numeral × List Char) :=
  match scale significand.toUInt64.toFloat exponent with
  | some x => .ok (.real (if negative then -x else x), rest)
  | none => .error .malformed

/-! ### Reading -/

/-- The sign of an exponent, and what follows it. -/
def exponentSign : List Char → Bool × List Char
  | '-' :: rest => (true, rest)
  | '+' :: rest => (false, rest)
  | rest => (false, rest)

/-- Reads an exponent after its mark. -/
def readExponent (negative : Bool) (significand : Nat) (exponent : Int) (cs : List Char) :
    Except Problem (Numeral × List Char) :=
  let (down, cs) := exponentSign cs
  if cs.isEmpty then .error .early
  else if startsWithDigit cs then
    let shift : Int := digitsValue (cs.takeWhile Char.isDigit)
    compose negative significand (if down then exponent - shift else exponent + shift)
      (cs.dropWhile Char.isDigit)
  else .error .malformed

/-- Reads a fraction after its point, and an exponent if there is one. -/
def readFraction (negative : Bool) (significand : Nat) (exponent : Int) (cs : List Char) :
    Except Problem (Numeral × List Char) :=
  if cs.isEmpty then .error .early
  else if startsWithDigit cs then
    let (significand, count, rest) := appendDigits significand cs
    match rest.dropWhile Char.isDigit with
    | 'e' :: rest | 'E' :: rest => readExponent negative significand (exponent - count) rest
    | rest => compose negative significand (exponent - count) rest
  else .error .malformed

/-- Reads what follows the digits before the point, of which some were dropped. -/
def readTail (negative : Bool) (significand dropped : Nat) : Reader Numeral
  | '.' :: rest => readFraction negative significand dropped rest
  | 'e' :: rest | 'E' :: rest => readExponent negative significand dropped rest
  | rest =>
    if dropped = 0 ∧ negative = false then .ok (.whole significand, rest)
    else compose negative significand dropped rest

/-- Reads a number after its sign. -/
def readUnsigned (negative : Bool) : Reader Numeral
  | [] => .error .early
  | c :: rest =>
    if c = '0' then
      if startsWithDigit rest then .error .malformed else readTail negative 0 0 rest
    else if c.isDigit then
      let (significand, _, rest) := appendDigits (digitValue c) rest
      readTail negative significand (rest.takeWhile Char.isDigit).length
        (rest.dropWhile Char.isDigit)
    else .error .malformed

/-- Reads a number. -/
def readNumeral : Reader Numeral
  | '-' :: rest => readUnsigned true rest
  | cs => readUnsigned false cs

/-! ### Passing over -/

/-- Passes over an exponent, if there is one. -/
def skipExponent : List Char → Except Problem (List Char)
  | 'e' :: rest | 'E' :: rest =>
    let digits := (exponentSign rest).2
    if startsWithDigit digits then .ok (digits.dropWhile Char.isDigit) else .error .malformed
  | rest => .ok rest

/-- Passes over a fraction and an exponent, as far as they are there. -/
def skipFraction : List Char → Except Problem (List Char)
  | '.' :: rest =>
    if startsWithDigit rest then skipExponent (rest.dropWhile Char.isDigit)
    else .error .malformed
  | rest => skipExponent rest

/-- Passes over a number after its sign. -/
def skipUnsigned : List Char → Except Problem (List Char)
  | [] => .error .malformed
  | c :: rest =>
    if c = '0' then if startsWithDigit rest then .error .malformed else skipFraction rest
    else if c.isDigit then skipFraction (rest.dropWhile Char.isDigit)
    else .error .malformed

/-- Passes over a number. -/
def skipNumeral : List Char → Except Problem (List Char)
  | '-' :: rest => skipUnsigned rest
  | cs => skipUnsigned cs

end EmojiCatalog.Json
