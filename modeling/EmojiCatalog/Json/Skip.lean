import EmojiCatalog.Json.Numeral
/-!
Values that are passed over.

`skipValue` takes one value from the start of a text and forgets it.  It keeps the brackets that are
open in a list, so there is no bound on how deep they may nest, and it holds the text to the grammar
alone: numbers may be of any size and escaped surrogates may stand alone.
-/

namespace EmojiCatalog.Json

/-! ### Blanks and words -/

/-- Characters that may stand between the parts of a value. -/
def isBlank (c : Char) : Bool := c = ' ' || c = '\n' || c = '\t' || c = '\r'

/-- What follows any blanks. -/
def skipBlanks (cs : List Char) : List Char := cs.dropWhile isBlank

/-- Reads given characters. -/
def expectAll : List Char → List Char → Except Problem (List Char)
  | [], cs => .ok cs
  | w :: ws, cs => do expectAll ws (← expect w cs)

/-- Passes over a value that is neither an array nor an object. -/
def skipScalar : List Char → Except Problem (List Char)
  | '"' :: rest => skipBody rest
  | 'n' :: rest => expectAll ['u', 'l', 'l'] rest
  | 't' :: rest => expectAll ['r', 'u', 'e'] rest
  | 'f' :: rest => expectAll ['a', 'l', 's', 'e'] rest
  | c :: rest => if c = '-' || c.isDigit then skipNumeral (c :: rest) else .error .malformed
  | [] => .error .early

/-! ### Punctuation -/

/-- Reads the colon after a key. -/
def readColon (cs : List Char) : Except Problem (List Char) := expect ':' (skipBlanks cs)

/-- Passes over a key and its colon. -/
def skipKey (cs : List Char) : Except Problem (List Char) := do
  readColon (← skipBody (← expect '"' (skipBlanks cs)))

/-- An open bracket. -/
inductive Bracket where
  | array
  | object
  deriving DecidableEq, Repr

/-- What comes next while a value is passed over. -/
inductive Turn where
  | value
  | key
  /-- A comma or a closing bracket. -/
  | separator
  deriving DecidableEq, Repr

/-- What comes after the comma in a bracket. -/
def Bracket.afterComma : Bracket → Turn
  | array => .value
  | object => .key

/-- The character that closes a bracket. -/
def Bracket.closing : Bracket → Char
  | array => ']'
  | object => '\x7d'

/-- Passes over what comes next and all that follows until every open bracket is closed, in at most
so many steps. -/
def skipWithin : Nat → Turn → List Bracket → List Char → Except Problem (List Char)
  | 0, _, _, _ => .error .early
  | _ + 1, .separator, [], cs => .ok cs
  | n + 1, .separator, bracket :: outer, cs =>
    match skipBlanks cs with
    | [] => .error .early
    | c :: rest =>
      if c = ',' then skipWithin n bracket.afterComma (bracket :: outer) rest
      else if c = bracket.closing then skipWithin n .separator outer rest
      else .error .malformed
  | n + 1, .key, open_, cs => do skipWithin n .value open_ (← skipKey cs)
  | n + 1, .value, open_, cs =>
    match skipBlanks cs with
    | '[' :: rest =>
      match skipBlanks rest with
      | ']' :: rest => skipWithin n .separator open_ rest
      | rest => skipWithin n .value (.array :: open_) rest
    | '\x7b' :: rest =>
      match skipBlanks rest with
      | '\x7d' :: rest => skipWithin n .separator open_ rest
      | rest => skipWithin n .key (.object :: open_) rest
    | rest => do skipWithin n .separator open_ (← skipScalar rest)

/-- Passes over one value. -/
def skipValue (cs : List Char) : Except Problem (List Char) :=
  skipWithin (cs.length + 1) .value [] cs

end EmojiCatalog.Json
