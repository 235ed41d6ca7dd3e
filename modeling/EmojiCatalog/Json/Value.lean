import EmojiCatalog.Decimal
import EmojiCatalog.Json.Text
/-!
Values of JSON and their text.

`Value.chars` is the text without blanks; `Value.pretty` puts every member and every item on a line
of its own, indented by two for every level.
-/

namespace EmojiCatalog.Json

/-- A value of JSON.  The members of an object stand in the order in which they are written. -/
inductive Value where
  | null
  | flag (b : Bool)
  | whole (n : Nat)
  | real (x : Float)
  | text (s : String)
  | array (items : List Value)
  | object (members : List (String × Value))
  deriving Inhabited

/-! ### Scalars -/

/-- The text of a truth value. -/
def flagChars (b : Bool) : List Char :=
  if b then ['t', 'r', 'u', 'e'] else ['f', 'a', 'l', 's', 'e']

/-- The text of nothing. -/
def nullChars : List Char := ['n', 'u', 'l', 'l']

/-- The text of a real number; there is none for those that are not finite. -/
def realChars (x : Float) : List Char := if x.isFinite then Decimal.shortest x else nullChars

namespace Value

/-! ### Order of members -/

/-- Puts a member in its place by the order of keys. -/
def insertMember (p : String × Value) : List (String × Value) → List (String × Value)
  | [] => [p]
  | q :: rest => if p.1 ≤ q.1 then p :: q :: rest else q :: insertMember p rest

mutual

/-- The value with the members of every object in the order of their keys. -/
def sorted : Value → Value
  | array items => array (sortedItems items)
  | object members => object (sortedMembers members)
  | null => null
  | flag b => flag b
  | whole n => whole n
  | real x => real x
  | text s => text s

/-- Items, each with its members in order. -/
def sortedItems : List Value → List Value
  | [] => []
  | x :: xs => x.sorted :: sortedItems xs

/-- Members in order, each with its own members in order. -/
def sortedMembers : List (String × Value) → List (String × Value)
  | [] => []
  | (k, v) :: rest => insertMember (k, v.sorted) (sortedMembers rest)

end

/-! ### Text without blanks -/

mutual

/-- The text of a value. -/
def chars : Value → List Char
  | null => nullChars
  | flag b => flagChars b
  | whole n => Nat.toDigits 10 n
  | real x => realChars x
  | text s => quote s
  | array [] => ['[', ']']
  | array (x :: xs) => '[' :: x.chars ++ moreItems xs
  | object [] => ['\x7b', '\x7d']
  | object ((k, v) :: rest) => '\x7b' :: quote k ++ ':' :: v.chars ++ moreMembers rest

/-- The text of the items after the first, with the closing bracket. -/
def moreItems : List Value → List Char
  | [] => [']']
  | x :: xs => ',' :: x.chars ++ moreItems xs

/-- The text of the members after the first, with the closing brace. -/
def moreMembers : List (String × Value) → List Char
  | [] => ['\x7d']
  | (k, v) :: rest => ',' :: quote k ++ ':' :: v.chars ++ moreMembers rest

end

/-- The text of a value, as a string. -/
def compact (v : Value) : String := String.ofList v.chars

/-! ### Text in lines -/

/-- A new line at a level. -/
def newLine (level : Nat) : List Char := '\n' :: List.replicate (2 * level) ' '

mutual

/-- The text of a value in lines, of which all but the first are indented for a level. -/
def lines (level : Nat) : Value → List Char
  | array (x :: xs) =>
    '[' :: newLine (level + 1) ++ x.lines (level + 1) ++ moreItemLines level xs
  | object ((k, v) :: rest) =>
    '\x7b' :: newLine (level + 1) ++ quote k ++ ':' :: ' ' :: v.lines (level + 1)
      ++ moreMemberLines level rest
  | null => nullChars
  | flag b => flagChars b
  | whole n => Nat.toDigits 10 n
  | real x => realChars x
  | text s => quote s
  | array [] => ['[', ']']
  | object [] => ['\x7b', '\x7d']

/-- The lines of the items after the first, and the closing bracket. -/
def moreItemLines (level : Nat) : List Value → List Char
  | [] => newLine level ++ [']']
  | x :: xs => ',' :: newLine (level + 1) ++ x.lines (level + 1) ++ moreItemLines level xs

/-- The lines of the members after the first, and the closing brace. -/
def moreMemberLines (level : Nat) : List (String × Value) → List Char
  | [] => newLine level ++ ['\x7d']
  | (k, v) :: rest =>
    ',' :: newLine (level + 1) ++ quote k ++ ':' :: ' ' :: v.lines (level + 1)
      ++ moreMemberLines level rest

end

/-- The text of a value in lines. -/
def pretty (v : Value) : String := String.ofList (v.lines 0)

end Value

end EmojiCatalog.Json
