import EmojiCatalog.Decimal
/-!
Log events as values: a level, a message and named fields.

Operations return the events that they cause, in order; nothing here writes them anywhere.
-/

namespace EmojiCatalog.Log

/-- How important an event is, most important first. -/
inductive Level where
  | error
  | warn
  | info
  | debug
  | trace
  deriving DecidableEq, Repr

namespace Level

/-- The label of a level. -/
def label : Level → String
  | error => "ERROR"
  | warn => "WARN"
  | info => "INFO"
  | debug => "DEBUG"
  | trace => "TRACE"

/-- The place of a level, the most important being first. -/
def rank : Level → Nat
  | error => 0
  | warn => 1
  | info => 2
  | debug => 3
  | trace => 4

end Level

/-- The value of a field. -/
inductive Field where
  | nat (n : Nat)
  | flag (b : Bool)
  | real (x : Float)
  | text (s : String)
  deriving Inhabited

/-- One event. -/
structure Event where
  level : Level
  message : String
  fields : List (String × Field)

/-- The text of a field's value. -/
def Field.shown : Field → String
  | nat n => toString n
  | flag b => toString b
  | real x => if x.isFinite then String.ofList (Decimal.shortest x) else ""
  | text s => s

/-- The line of an event in a log. -/
def Event.line (e : Event) : String :=
  e.level.label ++ " " ++ e.message
    ++ String.join (e.fields.map fun p => " " ++ p.1 ++ "=" ++ p.2.shown)

/-- The field that marks an activity as having run to its end. -/
def succeeded : String × Field := ("outcome", .text "success")

end EmojiCatalog.Log
