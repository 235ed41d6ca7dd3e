import EmojiCatalog.Json.Skip
import Mathlib.Data.List.Forall2
/-!
The texts of JSON.

Grammars that say which texts are the text of something, and share nothing with the readers.  A text
and its value are in a relation rather than in a function, because the same value has many texts:
blanks may stand around every mark, a character may be escaped in several ways, and the members of
an object may come in any order.

`IsValue` are the texts of any value, nested to any depth, with numbers of any size.  `SpellsText`
are the texts of a given string.  `SpellsArray` and `SpellsObject` are the texts of an array and of
an object whose items or members have given texts.  The text of a value begins and ends with the
value; what stands between it and its neighbours belongs to the marks.
-/

namespace EmojiCatalog.Json

/-- Characters that may stand between the parts of a value. -/
def IsBlanks (cs : List Char) : Prop := ∀ c ∈ cs, isBlank c = true

theorem isBlanks_nil : IsBlanks [] := fun _ h => nomatch h

/-! ### Quoted text -/

/-- Four digits of base sixteen, and their number. -/
inductive IsUnit : Nat → List Char → Prop
  | intro {a b c d : Char} {w x y z : Nat} (ha : hexValue? a = some w) (hb : hexValue? b = some x)
      (hc : hexValue? c = some y) (hd : hexValue? d = some z) :
      IsUnit (((w * 16 + x) * 16 + y) * 16 + z) [a, b, c, d]

/-- How a character may be written between quotes. -/
inductive SpellsChar : Char → List Char → Prop
  | plain {c : Char} (hquote : c ≠ '"') (hslash : c ≠ '\\') (hcontrol : isControl c = false) :
      SpellsChar c [c]
  | short {e c : Char} (h : shortEscape? e = some c) : SpellsChar c ['\\', e]
  | unit {n : Nat} {ds : List Char} (h : IsUnit n ds) (hleading : isLeading n = false)
      (htrailing : isTrailing n = false) : SpellsChar (Char.ofNat n) ('\\' :: 'u' :: ds)
  | pair {n m : Nat} {ds es : List Char} (hn : IsUnit n ds) (hm : IsUnit m es)
      (hleading : isLeading n = true) (htrailing : isTrailing m = true) :
      SpellsChar (ofPair n m) ('\\' :: 'u' :: ds ++ '\\' :: 'u' :: es)

/-- The text is a string between quotes. -/
def SpellsText (s : String) (cs : List Char) : Prop :=
  ∃ pieces, List.Forall₂ SpellsChar s.toList pieces ∧ cs = '"' :: pieces.flatten ++ ['"']

/-- What may stand between quotes.  A code unit need not be half of a pair. -/
inductive IsPiece : List Char → Prop
  | plain {c : Char} (hquote : c ≠ '"') (hslash : c ≠ '\\') (hcontrol : isControl c = false) :
      IsPiece [c]
  | short {e c : Char} (h : shortEscape? e = some c) : IsPiece ['\\', e]
  | unit {n : Nat} {ds : List Char} (h : IsUnit n ds) : IsPiece ('\\' :: 'u' :: ds)

/-- The text is anything between quotes. -/
def IsQuoted (cs : List Char) : Prop :=
  ∃ pieces : List (List Char), (∀ p ∈ pieces, IsPiece p) ∧ cs = '"' :: pieces.flatten ++ ['"']

/-! ### Numbers -/

/-- At least one digit. -/
def IsDigits (cs : List Char) : Prop := cs ≠ [] ∧ ∀ c ∈ cs, c.isDigit = true

/-- The digits before the point: no zero comes before others. -/
inductive IsInteger : List Char → Prop
  | zero : IsInteger ['0']
  | digits {c : Char} {ds : List Char} (hc : c.isDigit = true) (hzero : c ≠ '0')
      (hds : ∀ d ∈ ds, d.isDigit = true) : IsInteger (c :: ds)

/-- The point and the digits after it, if they are there. -/
inductive IsFraction : List Char → Prop
  | absent : IsFraction []
  | present {ds : List Char} (hds : IsDigits ds) : IsFraction ('.' :: ds)

/-- The exponent, if it is there. -/
inductive IsExponent : List Char → Prop
  | absent : IsExponent []
  | present {mark : Char} {sign ds : List Char} (hmark : mark = 'e' ∨ mark = 'E')
      (hsign : sign = [] ∨ sign = ['+'] ∨ sign = ['-']) (hds : IsDigits ds) :
      IsExponent (mark :: (sign ++ ds))

/-- The text is a number. -/
inductive IsNumeral : List Char → Prop
  | intro {sign integer fraction exponent : List Char} (hsign : sign = [] ∨ sign = ['-'])
      (hinteger : IsInteger integer) (hfraction : IsFraction fraction)
      (hexponent : IsExponent exponent) :
      IsNumeral (sign ++ (integer ++ (fraction ++ exponent)))

/-- The text is that of a word of 64 bits. -/
def SpellsWord (n : Nat) (cs : List Char) : Prop := n < UInt64.size ∧ cs = Nat.toDigits 10 n

/-! ### Values of any kind -/

/-- The text is a value that is neither an array nor an object. -/
inductive IsScalar : List Char → Prop
  | null : IsScalar ['n', 'u', 'l', 'l']
  | isTrue : IsScalar ['t', 'r', 'u', 'e']
  | isFalse : IsScalar ['f', 'a', 'l', 's', 'e']
  | quoted {cs : List Char} (h : IsQuoted cs) : IsScalar cs
  | numeral {cs : List Char} (h : IsNumeral cs) : IsScalar cs

/-- What a text is the text of. -/
inductive Part where
  | value
  /-- What follows an item in its array. -/
  | moreItems
  /-- What follows a member in its object. -/
  | moreMembers

/-- The text of some part of a value. -/
inductive IsPart : Part → List Char → Prop
  | scalar {cs : List Char} (h : IsScalar cs) : IsPart .value cs
  | emptyArray {bs : List Char} (hbs : IsBlanks bs) : IsPart .value ('[' :: (bs ++ [']']))
  | array {bs cs ds : List Char} (hbs : IsBlanks bs) (hcs : IsPart .value cs)
      (hds : IsPart .moreItems ds) : IsPart .value ('[' :: (bs ++ (cs ++ ds)))
  | emptyObject {bs : List Char} (hbs : IsBlanks bs) :
      IsPart .value ('\x7b' :: (bs ++ ['\x7d']))
  | object {bs ks bs' bs'' cs ds : List Char} (hbs : IsBlanks bs) (hks : IsQuoted ks)
      (hbs' : IsBlanks bs') (hbs'' : IsBlanks bs'') (hcs : IsPart .value cs)
      (hds : IsPart .moreMembers ds) :
      IsPart .value ('\x7b' :: (bs ++ (ks ++ (bs' ++ ':' :: (bs'' ++ (cs ++ ds))))))
  | closeArray {bs : List Char} (hbs : IsBlanks bs) : IsPart .moreItems (bs ++ [']'])
  | nextItem {bs bs' cs ds : List Char} (hbs : IsBlanks bs) (hbs' : IsBlanks bs')
      (hcs : IsPart .value cs) (hds : IsPart .moreItems ds) :
      IsPart .moreItems (bs ++ ',' :: (bs' ++ (cs ++ ds)))
  | closeObject {bs : List Char} (hbs : IsBlanks bs) : IsPart .moreMembers (bs ++ ['\x7d'])
  | nextMember {bs bs₁ ks bs' bs'' cs ds : List Char} (hbs : IsBlanks bs) (hbs₁ : IsBlanks bs₁)
      (hks : IsQuoted ks) (hbs' : IsBlanks bs') (hbs'' : IsBlanks bs'') (hcs : IsPart .value cs)
      (hds : IsPart .moreMembers ds) :
      IsPart .moreMembers (bs ++ ',' :: (bs₁ ++ (ks ++ (bs' ++ ':' :: (bs'' ++ (cs ++ ds))))))

/-- The text is a value. -/
abbrev IsValue (cs : List Char) : Prop := IsPart .value cs

/-! ### Arrays and objects with given parts -/

/-- The text after the opening bracket, or after an item, of an array whose remaining items have
the given texts. -/
inductive SpellsItems : Bool → List (List Char) → List Char → Prop
  | close {isFirst : Bool} {bs : List Char} (hbs : IsBlanks bs) :
      SpellsItems isFirst [] (bs ++ [']'])
  | first {bs v ds : List Char} {vs : List (List Char)} (hbs : IsBlanks bs)
      (hds : SpellsItems false vs ds) : SpellsItems true (v :: vs) (bs ++ (v ++ ds))
  | next {bs bs' v ds : List Char} {vs : List (List Char)} (hbs : IsBlanks bs)
      (hbs' : IsBlanks bs') (hds : SpellsItems false vs ds) :
      SpellsItems false (v :: vs) (bs ++ ',' :: (bs' ++ (v ++ ds)))

/-- The text is an array whose items have the given texts. -/
def SpellsArray (items : List (List Char)) (cs : List Char) : Prop :=
  ∃ ds, SpellsItems true items ds ∧ cs = '[' :: ds

/-- The text after the opening brace, or after a member, of an object whose remaining members have
the given keys and texts. -/
inductive SpellsMembers : Bool → List (String × List Char) → List Char → Prop
  | close {isFirst : Bool} {bs : List Char} (hbs : IsBlanks bs) :
      SpellsMembers isFirst [] (bs ++ ['\x7d'])
  | first {k : String} {bs ks bs' bs'' v ds : List Char} {ms : List (String × List Char)}
      (hbs : IsBlanks bs) (hks : SpellsText k ks) (hbs' : IsBlanks bs') (hbs'' : IsBlanks bs'')
      (hds : SpellsMembers false ms ds) :
      SpellsMembers true ((k, v) :: ms) (bs ++ (ks ++ (bs' ++ ':' :: (bs'' ++ (v ++ ds)))))
  | next {k : String} {bs bs₁ ks bs' bs'' v ds : List Char} {ms : List (String × List Char)}
      (hbs : IsBlanks bs) (hbs₁ : IsBlanks bs₁) (hks : SpellsText k ks) (hbs' : IsBlanks bs')
      (hbs'' : IsBlanks bs'') (hds : SpellsMembers false ms ds) :
      SpellsMembers false ((k, v) :: ms)
        (bs ++ ',' :: (bs₁ ++ (ks ++ (bs' ++ ':' :: (bs'' ++ (v ++ ds))))))

/-- The text is an object whose members have the given keys and texts. -/
def SpellsObject (members : List (String × List Char)) (cs : List Char) : Prop :=
  ∃ ds, SpellsMembers true members ds ∧ cs = '\x7b' :: ds

/-- The texts of the members of a given key. -/
def textsUnder (k : String) (members : List (String × List Char)) : List (List Char) :=
  (members.filter fun p => p.1 = k).map Prod.snd

/-- A whole text: a value with blanks around it. -/
def IsDocument (isValue : List Char → Prop) (s : String) : Prop :=
  ∃ bs cs bs', IsBlanks bs ∧ isValue cs ∧ IsBlanks bs' ∧ s.toList = bs ++ (cs ++ bs')

end EmojiCatalog.Json
