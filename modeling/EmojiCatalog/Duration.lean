/-!
Lengths of time, counted in nanoseconds.

A duration is shown in the largest of the units s, ms, µs and ns that gives an integer part of at
least one, with exactly the fractional digits it needs.
-/

namespace EmojiCatalog

/-- A length of time in nanoseconds. -/
structure Duration where
  nanos : Nat
  deriving DecidableEq, Repr, Inhabited

namespace Duration

/-- No time at all. -/
def zero : Duration := ⟨0⟩

/-- Whole seconds and nanoseconds beyond them. -/
def ofParts (secs nanos : Nat) : Duration := ⟨secs * 1000000000 + nanos⟩

/-- Whole seconds. -/
def ofSecs (n : Nat) : Duration := ⟨n * 1000000000⟩

/-- Whole milliseconds. -/
def ofMillis (n : Nat) : Duration := ⟨n * 1000000⟩

/-- Whole microseconds. -/
def ofMicros (n : Nat) : Duration := ⟨n * 1000⟩

/-- The whole seconds. -/
def secs (d : Duration) : Nat := d.nanos / 1000000000

/-- The nanoseconds beyond the whole seconds. -/
def subsecNanos (d : Duration) : Nat := d.nanos % 1000000000

/-- The seconds in double precision. -/
def seconds (d : Duration) : Float := d.secs.toFloat + d.subsecNanos.toFloat / 1000000000.0

/-- The whole milliseconds. -/
def millis (d : Duration) : Nat := d.nanos / 1000000

/-- The decimal digits of `n`, padded with zeros on the left to `width` digits. -/
def paddedDigits (width n : Nat) : List Char :=
  let digits := Nat.toDigits 10 n
  List.replicate (width - digits.length) '0' ++ digits

/-- A fraction of `width` digits without its trailing zeros, after its point; nothing when it is
zero. -/
def fractionText (width n : Nat) : String :=
  match ((paddedDigits width n).reverse.dropWhile (· = '0')).reverse with
  | [] => ""
  | digits => "." ++ String.ofList digits

/-- `nanos` in a unit of `10 ^ width` nanoseconds. -/
def textIn (unit : String) (width nanos : Nat) : String :=
  toString (nanos / Nat.pow 10 width) ++ fractionText width (nanos % Nat.pow 10 width) ++ unit

/-- The text of a duration, such as `1.5ms`. -/
def text (d : Duration) : String :=
  if 1000000000 ≤ d.nanos then textIn "s" 9 d.nanos
  else if 1000000 ≤ d.nanos then textIn "ms" 6 d.nanos
  else if 1000 ≤ d.nanos then textIn "µs" 3 d.nanos
  else textIn "ns" 0 d.nanos

end Duration

end EmojiCatalog
