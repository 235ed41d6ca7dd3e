import EmojiCatalog.Json.Codec
/-!
Records: JSON objects with fixed members.

`Fields` says which members a record has, one after the other.  While an object is read, the members
found so far are kept in a draft; a member may come in any order, but not twice.  When the object is
over the draft is completed: a member that is missing takes its default, if it has one.  A record
can also be written as an array of its members in their order.

`Codec.record` reads both forms and passes over members that it does not know.  `Codec.merged` is
for records that share their object with a second group of members; it reads objects only, keeps the
members that the first group does not know as values, and makes the second group of them at the end.
-/

namespace EmojiCatalog.Json

/-- The members of a record. -/
structure Fields (α : Type) where
  /-- The members found so far. -/
  Draft : Type
  /-- Nothing found yet. -/
  blank : Draft
  /-- How to read what follows a key, if there is a member of that name. -/
  member? : String → Option (Draft → Reader Draft)
  /-- The record of a draft, unless a member is missing. -/
  complete? : Draft → Option α
  /-- Reads the members as items of an array, of which the next may be the first. -/
  items : Bool → Reader α
  /-- The members of a record as they are written. -/
  members : α → List (String × Value)

namespace Fields

/-- No members. -/
def nil : Fields Unit where
  Draft := Unit
  blank := ()
  member? _ := none
  complete? _ := some ()
  items _ cs := .ok ((), cs)
  members _ := []

/-- What stands in for a missing member: in an object, and in an array. -/
structure Default (α : Type) where
  inObject : Option α := none
  inArray : Option α := none

/-- The reader of a member that is in no draft yet, after its key. -/
def readMember {α : Type} (c : Codec α) (found : Option α) (cs : List Char) :
    Except Problem (α × List Char) := do
  match found with
  | some _ => .error .mismatched
  | none => c.read (← readColon cs)

/-- One member and more after it. -/
def cons {α β : Type} (name : String) (c : Codec α) (missing : Default α) (rest : Fields β)
    (isWritten : α → Bool := fun _ => true) : Fields (α × β) where
  Draft := Option α × rest.Draft
  blank := (none, rest.blank)
  member? key :=
    if key = name then
      some fun draft cs => (readMember c draft.1 cs).map fun p => ((some p.1, draft.2), p.2)
    else
      (rest.member? key).map fun read draft cs =>
        (read draft.2 cs).map fun p => ((draft.1, p.1), p.2)
  complete? draft := do
    let x ← draft.1 <|> missing.inObject
    let xs ← rest.complete? draft.2
    return (x, xs)
  items isFirst cs := do
    match ← nextItem isFirst cs, missing.inArray with
    | some cs, _ =>
      let (x, cs) ← c.read cs
      let (xs, cs) ← rest.items false cs
      return ((x, xs), cs)
    | none, some x =>
      let (xs, cs) ← rest.items isFirst cs
      return ((x, xs), cs)
    | none, none => .error .mismatched
  members p := (if isWritten p.1 then [(name, c.write p.1)] else []) ++ rest.members p.2

/-- A member that must not be missing. -/
def required {α β : Type} (name : String) (c : Codec α) (rest : Fields β) : Fields (α × β) :=
  cons name c {} rest

/-- A member that an object may leave out. -/
def optional {α β : Type} (name : String) (c : Codec α) (rest : Fields β) :
    Fields (Option α × β) :=
  cons name (.option c) { inObject := some none } rest

/-- A member that an object may leave out, and that is not written when there is nothing. -/
def omissible {α β : Type} (name : String) (c : Codec α) (rest : Fields β) :
    Fields (Option α × β) :=
  cons name (.option c) { inObject := some none } rest Option.isSome

/-- A member with a default. -/
def withDefault {α β : Type} (name : String) (c : Codec α) (default : α) (rest : Fields β) :
    Fields (α × β) :=
  cons name c { inObject := some default, inArray := some default } rest

end Fields

/-! ### Codecs of records -/

/-- Passes over what follows an unknown key. -/
def skipMember {δ : Type} (draft : δ) (cs : List Char) : Except Problem (δ × List Char) := do
  return (draft, ← skipValue (← readColon cs))

/-- A result if there is one. -/
def orMismatch {α : Type} : Option α → Except Problem α
  | some x => .ok x
  | none => .error .mismatched

namespace Codec

/-- A record, made of its members by `ofMembers?`, with a rule for members of other names. -/
def recordWith {α β : Type} (fields : Fields β)
    (unknown : fields.Draft → Reader fields.Draft)
    (toMembers : α → β) (ofMembers? : β → Option α) : Codec α where
  write x := .object (fields.members (toMembers x))
  read cs := do
    match skipBlanks cs with
    | '[' :: rest =>
      let (members, rest) ← fields.items true rest
      let x ← orMismatch (ofMembers? members)
      return (x, ← closeArray rest)
    | '\x7b' :: rest =>
      let (draft, rest) ←
        readObject (fun key => (fields.member? key).getD unknown) fields.blank rest
      let x ← orMismatch ((fields.complete? draft).bind ofMembers?)
      return (x, rest)
    | rest => .error (refuse rest)

/-- A record that passes over members of other names. -/
def record {α β : Type} (fields : Fields β) (toMembers : α → β) (ofMembers : β → α) : Codec α :=
  recordWith fields skipMember toMembers fun members => some (ofMembers members)

/-- A record that refuses members of other names. -/
def strictRecord {α β : Type} (fields : Fields β) (toMembers : α → β) (ofMembers? : β → Option α) :
    Codec α :=
  recordWith fields (fun _ _ => .error .mismatched) toMembers ofMembers?

/-- How deep arrays and objects may nest in a member that is kept as a value. -/
def depthLimit : Nat := 126

/-- Reads what follows a key, given the members found so far and the other members as values. -/
def readMergedMember {α : Type} (fields : Fields α) (key : String)
    (draft : fields.Draft × List (String × Value)) (cs : List Char) :
    Except Problem ((fields.Draft × List (String × Value)) × List Char) :=
  match fields.member? key with
  | some read => (read draft.1 cs).map fun p => ((p.1, draft.2), p.2)
  | none => do
    let (v, cs) ← readValue depthLimit (← readColon cs)
    return ((draft.1, draft.2 ++ [(key, v)]), cs)

/-- A record whose object holds a second group of members, which stand first. -/
def merged {α β γ : Type} (fields : Fields β) (firstMembers : γ → List (String × Value))
    (ofOthers? : List (String × Value) → Option γ) (toParts : α → γ × β) (ofParts : γ → β → α) :
    Codec α where
  write x := .object (firstMembers (toParts x).1 ++ fields.members (toParts x).2)
  read cs := do
    match skipBlanks cs with
    | '\x7b' :: rest =>
      let ((draft, others), rest) ←
        readObject (readMergedMember fields) (fields.blank, []) rest
      let known ← orMismatch (fields.complete? draft)
      let first ← orMismatch (ofOthers? others)
      return (ofParts first known, rest)
    | rest => .error (refuse rest)

end Codec

end EmojiCatalog.Json
