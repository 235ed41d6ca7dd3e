import EmojiCatalog.Run.Producer
/-!
The consumer of a stream run.

`Run.next` asks for the next record.  A call passes through the phases of `Phase`: it looks at the
token, then at the buffer, and when the records are over at the report slot.  An answer is a record,
a fault, or the end.  When the buffer is empty and the producer is still at work there is no answer
yet; the call stays in progress and `Run.resume` takes it up again.

Once the token is cancelled the next call answers `Fault.cancelled`, whatever is buffered, and all
later calls answer that the run is over.

A consumer can instead take the two ends apart: `tryReceive` and `tryReport` look at the buffer and
at the report slot without regard to the token.
-/

namespace EmojiCatalog

/-- An answer to a call for the next record: a record, a fault, or nothing at the end. -/
abbrev Answer (α : Type) := Option (Except Fault (Record α))

namespace Run

variable {α : Type}

/-! ### Closing -/

/-- Takes no new records; what is buffered stays. -/
def close (r : Run α) : Run α :=
  match r.receiver with
  | .listening => { r with receiver := .closed }
  | _ => r

/-- Takes no records any more and forgets what is buffered. -/
def dropReceiver (r : Run α) : Run α := { r with receiver := .dropped, buffer := [] }

/-- Takes neither records nor a report any more. -/
def drop (r : Run α) : Run α := { r.dropReceiver with report := none }

/-- Whether no record will follow those in the buffer. -/
def isDrying (r : Run α) : Bool :=
  r.isFinished || r.receiver != .listening

/-! ### Calls for the next record, phase by phase -/

/-- Ends the run for its consumer because of a cancellation. -/
def stop (r : Run α) : Run α :=
  { r.close with isDone := true, phase := .idle }

/-- Begins a call. -/
def begin (cancelled : Bool) (r : Run α) : Option (Answer α) × Run α :=
  if r.isDone then (some none, r)
  else if cancelled then (some (some (.error .cancelled)), r.stop)
  else (none, { r with phase := .polling })

/-- Looks at the token. -/
def poll (cancelled : Bool) (r : Run α) : Option (Answer α) × Run α :=
  if cancelled then (some (some (.error .cancelled)), r.stop)
  else (none, { r with phase := .receiving })

/-- Looks at the buffer. -/
def receive (r : Run α) : Option (Answer α) × Run α :=
  match r.buffer with
  | record :: rest =>
    (some (some (.ok record)), { r with buffer := rest, taken := r.taken + 1, phase := .idle })
  | [] =>
    if r.isDrying then (none, { r with isDone := true, phase := .awaitingReport })
    else (none, { r with phase := .polling })

/-- Looks at the report slot after the last record. -/
def takeReport (r : Run α) : Option (Answer α) × Run α :=
  match r.report with
  | some f => (some (some (.error f)), { r with report := none, phase := .idle })
  | none => if r.isFinished then (some none, { r with phase := .idle }) else (none, r)

/-- One step of the consumer: begins a call, or takes the call in progress one phase further. -/
def consume (cancelled : Bool) (r : Run α) : Option (Answer α) × Run α :=
  match r.phase with
  | .idle => r.begin cancelled
  | .polling => r.poll cancelled
  | .receiving => r.receive
  | .awaitingReport => r.takeReport

/-- Makes at most so many steps, until a call is answered. -/
def consumeWithin : Nat → Bool → Run α → Option (Answer α) × Run α
  | 0, _, r => (none, r)
  | n + 1, cancelled, r =>
    match r.consume cancelled with
    | (some answer, r) => (some answer, r)
    | (none, r) => consumeWithin n cancelled r

/-! ### Whole calls -/

/-- Takes up a call in progress, until its answer or until it has to wait for the producer. -/
def resume (cancelled : Bool) (r : Run α) : Option (Answer α) × Run α :=
  match r.poll cancelled with
  | (some answer, r) => (some answer, r)
  | (none, r) =>
    match r.receive with
    | (some answer, r) => (some answer, r)
    | (none, r) =>
      match r.phase with
      | .awaitingReport => r.takeReport
      | _ => (none, r)

/-- Asks for the next record. -/
def next (cancelled : Bool) (r : Run α) : Option (Answer α) × Run α :=
  match r.begin cancelled with
  | (some answer, r) => (some answer, r)
  | (none, r) => r.resume cancelled

/-! ### The two ends apart -/

/-- What is found at one end of a run: a value, nothing yet, or nothing any more. -/
inductive Received (β : Type) where
  | value (x : β)
  | empty
  | closed
  deriving DecidableEq, Repr

/-- Takes a record if there is one. -/
def tryReceive (r : Run α) : Received (Record α) × Run α :=
  match r.buffer with
  | record :: rest => (.value record, { r with buffer := rest, taken := r.taken + 1 })
  | [] => (if r.isDrying then .closed else .empty, r)

/-- Takes the reported fault if there is one. -/
def tryReport (r : Run α) : Received Fault × Run α :=
  match r.report with
  | some f => (.value f, { r with report := none })
  | none => (if r.isFinished then .closed else .empty, r)

end Run

end EmojiCatalog
