import EmojiCatalog.Log
import EmojiCatalog.Record
import EmojiCatalog.Tokens
/-!
A stream run, and its producer.

A run carries the records of a catalog from a producer to a consumer through a buffer of bounded
size.  For every entry the producer looks at the run's token, calls the payload function, counts the
entry's category, and sends the record.  A full buffer holds it up until the consumer takes a
record; nothing else does.

The producer is a machine: `Run.produce` makes one step, and each step touches the world outside the
run at most once, which its `Effect` says.  Cancellation is noticed at two places, before an entry
and while its record is being sent.  Then `Fault.cancelled` is left in the report slot and the run
ends without that record.  A consumer that has stopped listening ends the run silently.

The step that sends a record looks at the token, looks at the receiver and fills the buffer all at
once, while in the program the look at the token comes a moment before the rest.  A cancellation in
that moment might as well come after the step, because the rest of the step does not look at the
token; a receipt or a closing might as well come before the step, because the look at the token does
not depend on them.  Only when both happen, first the cancellation and then the closing, can the
producer end as `Ending.consumerGone` where it ends here as `Ending.cancelledWhileSending`.  To the
consumer the run is over by then, so the answers that it gets are the same.

The counters `counted`, `emitted` and `taken` say how far the entries have come: added to the
statistics, put into the buffer, received.
-/

namespace EmojiCatalog

/-- How a producer ended. -/
inductive Ending where
  /-- Every record was sent. -/
  | completed
  /-- The token was found cancelled before an entry. -/
  | cancelledBeforeEntry
  /-- The token was found cancelled while a record was being sent. -/
  | cancelledWhileSending
  /-- The consumer no longer listens. -/
  | consumerGone
  deriving DecidableEq, Repr

/-- Where a producer stands. -/
inductive Stage (α : Type) where
  | starting
  /-- About to look at the token, or to end. -/
  | checking
  /-- About to call the payload function. -/
  | building (e : Entry)
  /-- About to count the entry. -/
  | counting (e : Entry) (record : Record α)
  /-- Holding a record for the buffer. -/
  | sending (e : Entry) (record : Record α)
  | finished (how : Ending)
  deriving DecidableEq

/-- Whether the consumer takes records. -/
inductive Receiver where
  | listening
  /-- Takes what is buffered, but nothing new. -/
  | closed
  | dropped
  deriving DecidableEq, Repr

/-- Where a consumer's call for the next record stands. -/
inductive Phase where
  /-- No call is in progress. -/
  | idle
  /-- About to look at the token. -/
  | polling
  /-- About to look at the buffer. -/
  | receiving
  /-- The records are over; about to look at the report slot. -/
  | awaitingReport
  deriving DecidableEq, Repr

/-- The number of phases. -/
def Phase.count : Nat := 4

/-- A stream run. -/
structure Run (α : Type) where
  token : Token
  producedBy : String
  /-- The size of the buffer. -/
  capacity : Nat
  /-- The number of entries. -/
  total : Nat
  /-- The entries that the producer has not begun with. -/
  pending : List Entry
  stage : Stage α := .starting
  /-- The records sent and not yet taken, oldest first. -/
  buffer : List (Record α) := []
  receiver : Receiver := .listening
  /-- The fault that the producer has left for the consumer. -/
  report : Option Fault := none
  phase : Phase := .idle
  /-- Whether the consumer has seen the end. -/
  isDone : Bool := false
  counted : Nat := 0
  emitted : Nat := 0
  taken : Nat := 0

/-- What a producer's step does outside of its run. -/
inductive Effect where
  | none
  /-- Calls the payload function. -/
  | callPayload
  /-- Adds one to a category's count. -/
  | count (category : String)
  deriving DecidableEq, Repr

namespace Run

/-! ### What a producer notes -/

/-- The events of a producer. -/
inductive Note where
  | started (total capacity : Nat)
  | progress (processed : Nat) (category subcategory : String)
  | ended (how : Ending) (processed total : Nat)
  deriving DecidableEq, Repr

/-- The number of records from one progress note to the next. -/
def sampleInterval : Nat := 10

/-- The log event of a note. -/
def Note.event : Note → Log.Event
  | started total capacity =>
    ⟨.info, "Stream processing started", [("total", .nat total), ("capacity", .nat capacity)]⟩
  | progress processed category subcategory =>
    ⟨.debug, "Stream progress", [("processed", .nat processed), ("category", .text category),
      ("subcategory", .text subcategory)]⟩
  | ended .completed processed _ =>
    ⟨.info, "Stream processing completed", [("processed", .nat processed), Log.succeeded]⟩
  | ended .cancelledBeforeEntry processed total =>
    ⟨.debug, "Stream cancelled", [("processed", .nat processed), ("total", .nat total)]⟩
  | ended .cancelledWhileSending processed total =>
    ⟨.debug, "Stream cancelled while waiting on consumer",
      [("processed", .nat processed), ("total", .nat total)]⟩
  | ended .consumerGone processed _ =>
    ⟨.debug, "Stream consumer dropped, stopping", [("processed", .nat processed)]⟩

/-! ### The producer's steps -/

variable {α : Type}

/-- A run over some entries, about to start. -/
def ofEntries (entries : List Entry) (token : Token) (producedBy : String) (capacity : Nat) :
    Run α where
  token := token
  producedBy := producedBy
  capacity := capacity
  total := entries.length
  pending := entries

/-- Whether the producer has ended. -/
def isFinished (r : Run α) : Bool :=
  match r.stage with
  | .finished _ => true
  | _ => false

/-- The run after its producer has ended in the given way. -/
def finish (r : Run α) (how : Ending) : Run α := { r with stage := .finished how }

/-- Leaves a fault in the report slot, unless one is there already. -/
def leaveReport (r : Run α) (f : Fault) : Run α :=
  { r with report := r.report <|> some f }

/-- Puts a record into the buffer. -/
def push (r : Run α) (record : Record α) : Run α :=
  { r with buffer := r.buffer ++ [record], emitted := r.emitted + 1, stage := .checking }

/-- The notes on a record just sent, which was the `n`-th of the run. -/
def progressNotes (n : Nat) (e : Entry) : List Note :=
  if n % sampleInterval = 0 then [.progress n e.category e.subcategory] else []

/-- A step of the producer: the run after it, its effect and its notes. -/
structure Move (α : Type) where
  run : Run α
  effect : Effect := .none
  notes : List Note := []

/-- One step of the producer, given whether the token is cancelled and what the payload function
makes of an entry now.  There is no step when the producer is held up by a full buffer and when it
has ended. -/
def produce (cancelled : Bool) (make : Entry → α × Stamp) (r : Run α) : Option (Move α) :=
  match r.stage with
  | .starting =>
    some { run := { r with stage := .checking }, notes := [.started r.total r.capacity] }
  | .checking =>
    match r.pending with
    | [] => some { run := r.finish .completed, notes := [.ended .completed r.emitted r.total] }
    | e :: rest =>
      if cancelled then
        some { run := (r.leaveReport .cancelled).finish .cancelledBeforeEntry
               notes := [.ended .cancelledBeforeEntry r.emitted r.total] }
      else some { run := { r with stage := .building e, pending := rest } }
  | .building e =>
    let (payload, stamp) := make e
    some { run := { r with stage := .counting e (.ofEntry e payload r.producedBy stamp) }
           effect := .callPayload }
  | .counting e record =>
    some { run := { r with stage := .sending e record, counted := r.counted + 1 }
           effect := .count e.category }
  | .sending e record =>
    if cancelled then
      some { run := (r.leaveReport .cancelled).finish .cancelledWhileSending
             notes := [.ended .cancelledWhileSending r.emitted r.total] }
    else if r.receiver ≠ .listening then
      some { run := r.finish .consumerGone, notes := [.ended .consumerGone r.emitted r.total] }
    else if r.buffer.length < r.capacity then
      some { run := r.push record, notes := progressNotes (r.emitted + 1) e }
    else none
  | .finished _ => none

/-- A bound on the number of steps that a producer still has to make. -/
def work (r : Run α) : Nat :=
  4 * r.pending.length +
    match r.stage with
    | .starting => 6
    | .checking => 5
    | .building _ => 8
    | .counting _ _ => 7
    | .sending _ _ => 6
    | .finished _ => 0

end Run

end EmojiCatalog
