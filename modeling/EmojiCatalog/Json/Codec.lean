import EmojiCatalog.KeyMap
import EmojiCatalog.Json.Skip
import EmojiCatalog.Json.Value
/-!
Codecs: how a type is written as JSON, and how it is read back.

A reader goes through the text once from left to right and reports the first problem that it meets.
A value of another kind than expected is a mismatch, but only as far as the value itself is in
order: the quoted text, number or word that stands there is read first.
-/

namespace EmojiCatalog.Json

/-- How a type is written and read. -/
structure Codec (α : Type) where
  write : α → Value
  read : Reader α

/-! ### Values of another kind -/

/-- The problem of a value that is not of the expected kind, given what comes of reading it. -/
def problemOf {α : Type} : Except Problem α → Problem
  | .error p => p
  | .ok _ => .mismatched

/-- The problem with a value, whose blanks are passed over, where another kind is expected. -/
def refuse (cs : List Char) : Problem :=
  match cs with
  | [] => .early
  | 'n' :: rest => problemOf (expectAll ['u', 'l', 'l'] rest)
  | 't' :: rest => problemOf (expectAll ['r', 'u', 'e'] rest)
  | 'f' :: rest => problemOf (expectAll ['a', 'l', 's', 'e'] rest)
  | '"' :: rest => problemOf (readText rest)
  | '[' :: _ | '\x7b' :: _ => .mismatched
  | c :: rest => if c = '-' || c.isDigit then problemOf (readNumeral (c :: rest)) else .malformed

/-! ### Scalars -/

namespace Codec

/-- Reads a number of either kind. -/
def readNumber (cs : List Char) : Except Problem (Numeral × List Char) :=
  match skipBlanks cs with
  | c :: rest =>
    if c = '-' || c.isDigit then readNumeral (c :: rest) else .error (refuse (c :: rest))
  | [] => .error .early

/-- Whole numbers below a limit. -/
def whole (limit : Nat) : Codec Nat where
  write := .whole
  read cs := do
    match ← readNumber cs with
    | (.whole n, rest) => if n < limit then .ok (n, rest) else .error .mismatched
    | (.real _, _) => .error .mismatched

/-- Whole numbers of 64 bits. -/
def word : Codec Nat := whole wordLimit

/-- Real numbers; a whole number is read as one too. -/
def real : Codec Float where
  write := .real
  read cs := do
    match ← readNumber cs with
    | (.whole n, rest) => .ok (n.toUInt64.toFloat, rest)
    | (.real x, rest) => .ok (x, rest)

/-- Truth values. -/
def flag : Codec Bool where
  write := .flag
  read cs :=
    match skipBlanks cs with
    | 't' :: rest => (expectAll ['r', 'u', 'e'] rest).map (true, ·)
    | 'f' :: rest => (expectAll ['a', 'l', 's', 'e'] rest).map (false, ·)
    | rest => .error (refuse rest)

/-- Text. -/
def text : Codec String where
  write := .text
  read cs :=
    match skipBlanks cs with
    | '"' :: rest => readText rest
    | rest => .error (refuse rest)

/-- Values that have a written form of their own, which stands between quotes. -/
def spelled {α : Type} (spell : α → String) (ofText? : String → Option α) : Codec α where
  write x := .text (spell x)
  read cs := do
    let (s, rest) ← text.read cs
    match ofText? s with
    | some x => .ok (x, rest)
    | none => .error .mismatched

/-- A value or nothing, which is written as `null`. -/
def option {α : Type} (c : Codec α) : Codec (Option α) where
  write x := (x.map c.write).getD .null
  read cs :=
    match skipBlanks cs with
    | 'n' :: rest => (expectAll ['u', 'l', 'l'] rest).map (none, ·)
    | rest => (c.read rest).map fun p => (some p.1, p.2)

end Codec

/-! ### Arrays -/

/-- Looks for the next item of an array: the text at which it begins, or nothing before the closing
bracket. -/
def nextItem (isFirst : Bool) (cs : List Char) : Except Problem (Option (List Char)) :=
  match skipBlanks cs with
  | [] => .error .early
  | ']' :: _ => .ok none
  | c :: rest =>
    if isFirst then .ok (some (c :: rest))
    else if c = ',' then
      match skipBlanks rest with
      | [] => .error .early
      | ']' :: _ => .error .malformed
      | rest => .ok (some rest)
    else .error .malformed

/-- Reads the bracket that closes an array. -/
def closeArray (cs : List Char) : Except Problem (List Char) := expect ']' (skipBlanks cs)

/-- Reads at most so many items after the opening bracket, and the closing one. -/
def readItems {α : Type} (read : Reader α) : Nat → Bool → Reader (List α)
  | 0, _, _ => .error .early
  | n + 1, isFirst, cs => do
    match ← nextItem isFirst cs with
    | none => (closeArray cs).map ([], ·)
    | some cs =>
      let (x, cs) ← read cs
      let (xs, cs) ← readItems read n false cs
      return (x :: xs, cs)

/-! ### Objects -/

/-- Reads a key after any blanks.  What stands there must be quoted, whatever it is. -/
def readKey (cs : List Char) : Except Problem (String × List Char) := do
  readText (← expect '"' (skipBlanks cs))

/-- Reads the next key of an object after its opening brace, or the closing brace. -/
def nextKey (isFirst : Bool) (cs : List Char) : Except Problem (Option String × List Char) :=
  match skipBlanks cs with
  | [] => .error .early
  | '\x7d' :: rest => .ok (none, rest)
  | c :: rest =>
    if isFirst then (readKey (c :: rest)).map fun p => (some p.1, p.2)
    else if c = ',' then (readKey rest).map fun p => (some p.1, p.2)
    else .error .malformed

/-- Reads at most so many members after the opening brace, and the closing one.  What is read is
gathered in a draft; `member` reads all that follows a key. -/
def readMembers {δ : Type} (member : String → δ → Reader δ) : Nat → Bool → δ → Reader δ
  | 0, _, _, _ => .error .early
  | n + 1, isFirst, draft, cs => do
    match ← nextKey isFirst cs with
    | (none, rest) => .ok (draft, rest)
    | (some key, rest) =>
      let (draft, rest) ← member key draft rest
      readMembers member n false draft rest

/-- Reads the members of an object after its opening brace, and the closing one. -/
def readObject {δ : Type} (member : String → δ → Reader δ) (draft : δ) : Reader δ := fun cs =>
  readMembers member (cs.length + 1) true draft cs

namespace Codec

/-- Lists, written as arrays. -/
def list {α : Type} (c : Codec α) : Codec (List α) where
  write xs := .array (xs.map c.write)
  read cs :=
    match skipBlanks cs with
    | '[' :: rest => readItems c.read (rest.length + 1) true rest
    | rest => .error (refuse rest)

/-- Maps with text keys, written as objects.  Of the members with one key the last counts. -/
def map {α : Type} (c : Codec α) : Codec (KeyMap α) where
  write m := .object (m.entries.map fun p => (p.1, c.write p.2))
  read cs :=
    match skipBlanks cs with
    | '\x7b' :: rest =>
      readObject (fun key m cs => do
        let (x, cs) ← c.read (← readColon cs)
        return (m.insert key x, cs)) .empty rest
    | rest => .error (refuse rest)

end Codec

/-! ### Values of any kind -/

/-- Reads a value of any kind in which arrays and objects nest at most so deep. -/
def readValue : Nat → Reader Value
  | depth, cs =>
    match skipBlanks cs with
    | [] => .error .early
    | 'n' :: rest => (expectAll ['u', 'l', 'l'] rest).map (.null, ·)
    | 't' :: rest => (expectAll ['r', 'u', 'e'] rest).map (.flag true, ·)
    | 'f' :: rest => (expectAll ['a', 'l', 's', 'e'] rest).map (.flag false, ·)
    | '"' :: rest => (readText rest).map fun p => (.text p.1, p.2)
    | '[' :: rest =>
      match depth with
      | 0 => .error .malformed
      | depth + 1 =>
        (readItems (readValue depth) (rest.length + 1) true rest).map fun p => (.array p.1, p.2)
    | '\x7b' :: rest =>
      match depth with
      | 0 => .error .malformed
      | depth + 1 =>
        (readObject (fun key members cs => do
          let (v, cs) ← readValue depth (← readColon cs)
          return (members ++ [(key, v)], cs)) [] rest).map fun p => (.object p.1, p.2)
    | c :: rest =>
      if c = '-' || c.isDigit then
        (readNumeral (c :: rest)).map fun
          | (.whole n, rest) => (.whole n, rest)
          | (.real x, rest) => (.real x, rest)
      else .error .malformed

/-! ### Whole texts -/

namespace Codec

/-- Reads a whole text, in which only blanks may follow the value. -/
def decodeChars {α : Type} (c : Codec α) (cs : List Char) : Except Problem α := do
  let (x, rest) ← c.read cs
  if (skipBlanks rest).isEmpty then return x else .error .malformed

/-- Reads a whole text. -/
def decode {α : Type} (c : Codec α) (s : String) : Except Problem α := c.decodeChars s.toList

/-- Writes a value as a text without blanks. -/
def encode {α : Type} (c : Codec α) (x : α) : String := (c.write x).compact

end Codec

end EmojiCatalog.Json
