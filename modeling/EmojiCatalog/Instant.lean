/-!
Points in time, as calendar fields in UTC.

An instant is a valid date of the proleptic Gregorian calendar with a time of day.  A leap second is
the second 59 with a thousand million nanoseconds or more.  The written form is the one of internet
timestamps: `2024-02-29T23:30:00.500Z`, with as many groups of three fractional digits as are
needed.

The reader is more liberal than the writer.  It takes any offset from UTC, short fields, blanks
around the fields, and signed years of any length; what it reads is moved to UTC, which changes the
date by at most one day.
-/

namespace EmojiCatalog

/-- A date and time of day in UTC. -/
structure Instant where
  year : Int
  month : Nat
  day : Nat
  hour : Nat
  minute : Nat
  second : Nat
  nanos : Nat
  deriving DecidableEq, Repr

namespace Instant

/-! ### The calendar -/

/-- Whether February has 29 days. -/
def isLeapYear (year : Int) : Bool :=
  year % 4 == 0 && (year % 100 != 0 || year % 400 == 0)

/-- The number of days of a month. -/
def daysIn (year : Int) (month : Nat) : Nat :=
  match month with
  | 1 | 3 | 5 | 7 | 8 | 10 | 12 => 31
  | 4 | 6 | 9 | 11 => 30
  | 2 => if isLeapYear year then 29 else 28
  | _ => 0

/-- The first year that can be represented. -/
def minYear : Int := -262143

/-- The last year that can be represented. -/
def maxYear : Int := 262142

/-- Whether there is such a date. -/
def isDate (year : Int) (month day : Nat) : Bool :=
  minYear ≤ year && year ≤ maxYear && 1 ≤ month && month ≤ 12 && 1 ≤ day
    && day ≤ daysIn year month

/-- Whether there is such an instant. -/
def isValid (t : Instant) : Bool :=
  isDate t.year t.month t.day && t.hour < 24 && t.minute < 60 && t.second < 60
    && (t.nanos < 1000000000 || (t.second == 59 && t.nanos < 2000000000))

/-- The day after a date. -/
def nextDay (year : Int) (month day : Nat) : Int × Nat × Nat :=
  if day < daysIn year month then (year, month, day + 1)
  else if month < 12 then (year, month + 1, 1)
  else (year + 1, 1, 1)

/-- The day before a date. -/
def previousDay (year : Int) (month day : Nat) : Int × Nat × Nat :=
  if 1 < day then (year, month, day - 1)
  else if 1 < month then (year, month - 1, daysIn year (month - 1))
  else (year - 1, 12, 31)

/-- The start of the epoch from which clocks count. -/
def epoch : Instant := ⟨1970, 1, 1, 0, 0, 0, 0⟩

instance : Inhabited Instant := ⟨epoch⟩

/-- The instant a number of minutes earlier; the number may be negative and is less than a day. -/
def minusMinutes (t : Instant) (minutes : Int) : Instant :=
  let local' : Int := t.hour * 60 + t.minute
  let utc := local' - minutes
  let (year, month, day) :=
    if utc < 0 then previousDay t.year t.month t.day
    else if 1440 ≤ utc then nextDay t.year t.month t.day
    else (t.year, t.month, t.day)
  let ofDay := (utc % 1440).toNat
  ⟨year, month, day, ofDay / 60, ofDay % 60, t.second, t.nanos⟩

/-- The date a number of days after the start of the epoch, found through eras of 400 years that
begin in March. -/
def dateOfDays (days : Nat) : Int × Nat × Nat :=
  let z := days + 719468
  let era := z / 146097
  let dayOfEra := z % 146097
  let yearOfEra := (dayOfEra - dayOfEra / 1460 + dayOfEra / 36524 - dayOfEra / 146096) / 365
  let dayOfYear := dayOfEra - (365 * yearOfEra + yearOfEra / 4 - yearOfEra / 100)
  let monthFromMarch := (5 * dayOfYear + 2) / 153
  let day := dayOfYear - (153 * monthFromMarch + 2) / 5 + 1
  let month := if monthFromMarch < 10 then monthFromMarch + 3 else monthFromMarch - 9
  let year := yearOfEra + era * 400 + (if month ≤ 2 then 1 else 0)
  (year, month, day)

/-- The instant a number of nanoseconds after the start of the epoch. -/
def ofEpochNanos (nanos : Nat) : Instant :=
  let secs := nanos / 1000000000
  let (year, month, day) := dateOfDays (secs / 86400)
  let ofDay := secs % 86400
  ⟨year, month, day, ofDay / 3600, ofDay / 60 % 60, ofDay % 60, nanos % 1000000000⟩

/-! ### Writing -/

/-- Decimal digits, padded with zeros on the left. -/
def padded (width n : Nat) : List Char :=
  let digits := Nat.toDigits 10 n
  List.replicate (width - digits.length) '0' ++ digits

/-- A year of four digits, or one with a sign and at least four digits outside `0 … 9999`. -/
def yearText (year : Int) : List Char :=
  if 0 ≤ year ∧ year ≤ 9999 then padded 4 year.toNat
  else (if year < 0 then '-' else '+') :: padded 4 year.natAbs

/-- The fraction of a second, in the fewest groups of three digits that are exact. -/
def fractionText (nanos : Nat) : List Char :=
  if nanos = 0 then []
  else if nanos % 1000000 = 0 then '.' :: padded 3 (nanos / 1000000)
  else if nanos % 1000 = 0 then '.' :: padded 6 (nanos / 1000)
  else '.' :: padded 9 nanos

/-- The characters of an instant's written form.  A leap second is written as the second 60. -/
def chars (t : Instant) : List Char :=
  yearText t.year ++ '-' :: padded 2 t.month ++ '-' :: padded 2 t.day
    ++ 'T' :: padded 2 t.hour ++ ':' :: padded 2 t.minute
    ++ ':' :: padded 2 (t.second + t.nanos / 1000000000)
    ++ fractionText (t.nanos % 1000000000) ++ ['Z']

/-- The written form of an instant. -/
def text (t : Instant) : String := String.ofList t.chars

/-! ### Reading -/

/-- Blank characters: the Unicode property `White_Space`. -/
def isBlank (c : Char) : Bool :=
  let n := c.toNat
  (0x09 ≤ n && n ≤ 0x0D) || n == 0x20 || n == 0x85 || n == 0xA0 || n == 0x1680
    || (0x2000 ≤ n && n ≤ 0x200A) || n == 0x2028 || n == 0x2029 || n == 0x202F || n == 0x205F
    || n == 0x3000

/-- What follows any blanks. -/
def skipBlanks (cs : List Char) : List Char := cs.dropWhile isBlank

/-- The value of some decimal digits. -/
def valueOf (digits : List Char) : Nat :=
  digits.foldl (fun n c => n * 10 + (c.toNat - '0'.toNat)) 0

/-- Reads at least one digit and takes all that follow. -/
def readNumber? (cs : List Char) : Option (Nat × List Char) :=
  match cs.takeWhile Char.isDigit with
  | [] => none
  | digits => some (valueOf digits, cs.drop digits.length)

/-- Reads at least one digit and at most `width` digits. -/
def readDigits? (width : Nat) (cs : List Char) : Option (Nat × List Char) :=
  match (cs.take width).takeWhile Char.isDigit with
  | [] => none
  | digits => some (valueOf digits, cs.drop digits.length)

/-- Reads a field of at most two digits after any blanks. -/
def readField? (cs : List Char) : Option (Nat × List Char) := readDigits? 2 (skipBlanks cs)

/-- Reads a year after any blanks: at most four digits, or any number of digits after a sign. -/
def readYear? (cs : List Char) : Option (Int × List Char) :=
  match skipBlanks cs with
  | '-' :: rest => (readNumber? rest).map fun p => (-(p.1 : Int), p.2)
  | '+' :: rest => (readNumber? rest).map fun p => ((p.1 : Int), p.2)
  | rest => (readDigits? 4 rest).map fun p => ((p.1 : Int), p.2)

/-- Reads one given character after any blanks. -/
def readMark? (mark : Char) (cs : List Char) : Option (List Char) :=
  match skipBlanks cs with
  | c :: rest => if c = mark then some rest else none
  | [] => none

/-- Reads an optional fraction of a second, of which nine digits count. -/
def readFraction? : List Char → Option (Nat × List Char)
  | '.' :: rest =>
    match rest.takeWhile Char.isDigit with
    | [] => none
    | digits =>
      let counted := digits.take 9
      some (valueOf counted * Nat.pow 10 (9 - counted.length), rest.drop digits.length)
  | cs => some (0, cs)

/-- Reads hours and minutes of an offset, two digits each, with colons and blanks between them. -/
def readOffsetFields? : List Char → Option (Nat × List Char)
  | h1 :: h2 :: rest =>
    match rest.dropWhile fun c => c = ':' || isBlank c with
    | m1 :: m2 :: rest =>
      if h1.isDigit && h2.isDigit && m1.isDigit && m2.isDigit && m1.toNat < '6'.toNat then
        some (valueOf [h1, h2] * 60 + valueOf [m1, m2], rest)
      else none
    | _ => none
  | _ => none

/-- Reads an offset from UTC in minutes: `UTC`, `Z`, or a sign with hours and minutes. -/
def readOffset? : List Char → Option (Int × List Char)
  | 'Z' :: rest | 'z' :: rest => some (0, rest)
  | '+' :: rest => (readOffsetFields? rest).map fun p => ((p.1 : Int), p.2)
  | '-' :: rest | '−' :: rest => (readOffsetFields? rest).map fun p => (-(p.1 : Int), p.2)
  | u :: t :: c :: rest =>
    if u.toLower = 'u' && t.toLower = 't' && c.toLower = 'c' then some (0, rest) else none
  | _ => none

/-- Reads a date. -/
def readDate? (cs : List Char) : Option ((Int × Nat × Nat) × List Char) := do
  let (year, cs) ← readYear? cs
  let cs ← readMark? '-' cs
  let (month, cs) ← readField? cs
  let cs ← readMark? '-' cs
  let (day, cs) ← readField? cs
  return ((year, month, day), cs)

/-- Reads a time of day with its fraction of a second. -/
def readTime? (cs : List Char) : Option ((Nat × Nat × Nat × Nat) × List Char) := do
  let (hour, cs) ← readField? cs
  let cs ← readMark? ':' cs
  let (minute, cs) ← readField? cs
  let cs ← readMark? ':' cs
  let (second, cs) ← readField? cs
  let (nanos, cs) ← readFraction? cs
  return ((hour, minute, second, nanos), cs)

/-- The instant with the given fields, in which the second 60 stands for a leap second. -/
def ofFields (date : Int × Nat × Nat) (time : Nat × Nat × Nat × Nat) : Instant :=
  let (year, month, day) := date
  let (hour, minute, second, nanos) := time
  if second = 60 then ⟨year, month, day, hour, minute, 59, nanos + 1000000000⟩
  else ⟨year, month, day, hour, minute, second, nanos⟩

/-- Reads the separator between date and time. -/
def readSeparator? : List Char → Option (List Char)
  | 't' :: rest | 'T' :: rest | ' ' :: rest => some rest
  | _ => none

/-- Reads a whole written instant and moves it to UTC. -/
def ofChars? (cs : List Char) : Option Instant := do
  let (date, cs) ← readDate? cs
  let cs ← readSeparator? cs
  let (time, cs) ← readTime? cs
  let (offset, cs) ← readOffset? (skipBlanks cs)
  let there := ofFields date time
  let here := there.minusMinutes offset
  if (skipBlanks cs).isEmpty && there.isValid && offset.natAbs < 1440 && here.isValid then
    return here
  else none

/-- Reads a written instant. -/
def ofText? (s : String) : Option Instant := ofChars? s.toList

end Instant

end EmojiCatalog
