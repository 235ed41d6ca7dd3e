import EmojiCatalog.Config
import EmojiCatalog.Proofs.Run.Moves
import EmojiCatalog.Run.Consumer
/-!
Histories of one stream run.

Three parties act on a run, in any order: its producer makes a step, its consumer puts a request to
it, or its token is cancelled.  A `Trace` is the run together with what has come of it so far, and
`Trace.after` carries out a list of acts, so the lists of acts are the interleavings of the three.
Nothing is assumed about the payload function: it is an arbitrary function of the number of the call
and of the entry.

A consumer's requests are those of a stream, `ask`, and those of a consumer that has taken the two
ends apart.  An `ask` is one phase of a call for the next record, so that the other parties can act
in the middle of a call.

An invariant of the three is proved for one act first, by the cases of `Trace.step_cases`, and then
holds after all acts (`Trace.after_of_step`).
-/

namespace EmojiCatalog

/-- The number of calls of the payload function in an effect. -/
def Effect.calls : Effect → Nat
  | .callPayload => 1
  | .none | .count _ => 0

/-- The categories that an effect counts. -/
def Effect.counts : Effect → List String
  | .count category => [category]
  | .none | .callPayload => []

namespace Run

variable {α : Type}

/-! ### Requests -/

/-- What a consumer can ask of a run. -/
inductive Request where
  /-- Begins a call for the next record, or takes the call in progress one phase further. -/
  | ask
  /-- Takes a record, without regard to the token. -/
  | tryReceive
  /-- Takes the reported fault. -/
  | tryReport
  | close
  | dropReceiver
  | drop
  deriving DecidableEq, Repr

/-- What a consumer gets from a request. -/
inductive Reply (α : Type) where
  | nothing
  /-- The answer to a call for the next record. -/
  | answer (a : Answer α)
  | record (x : Record α)
  | fault (f : Fault)

namespace Reply

/-- The answers in a reply. -/
def answers : Reply α → List (Answer α)
  | .answer a => [a]
  | _ => []

/-- The records in a reply, be it an answer or not. -/
def records : Reply α → List (Record α)
  | .answer (some (.ok x)) => [x]
  | .record x => [x]
  | _ => []

/-- The faults in a reply that is not an answer. -/
def faults : Reply α → List Fault
  | .fault f => [f]
  | _ => []

/-- The reply that a call has come to, if it has. -/
def ofAnswer : Option (Answer α) → Reply α
  | some a => .answer a
  | none => .nothing

/-- The reply that says what was found at one end of a run. -/
def ofReceived {β : Type} (f : β → Reply α) : Received β → Reply α
  | .value x => f x
  | .empty | .closed => .nothing

end Reply

/-- Lets a run serve a request, given whether its token is cancelled. -/
def serve (cancelled : Bool) (r : Run α) : Request → Reply α × Run α
  | .ask => (.ofAnswer (r.consume cancelled).1, (r.consume cancelled).2)
  | .tryReceive => (.ofReceived .record r.tryReceive.1, r.tryReceive.2)
  | .tryReport => (.ofReceived .fault r.tryReport.1, r.tryReport.2)
  | .close => (.nothing, r.close)
  | .dropReceiver => (.nothing, r.dropReceiver)
  | .drop => (.nothing, r.drop)

/-! ### Traces -/

/-- An act of one of the three parties. -/
inductive Act where
  | produce
  | serve (q : Request)
  | cancel
  deriving DecidableEq, Repr

/-- The acts on a run whose consumer only calls for the next record. -/
def Act.IsStreaming (a : Act) : Prop :=
  a = .produce ∨ a = .serve .ask ∨ a = .cancel

instance (a : Act) : Decidable a.IsStreaming :=
  inferInstanceAs (Decidable (a = .produce ∨ a = .serve .ask ∨ a = .cancel))

/-- A run with its token's mark and with all that has come of it so far. -/
structure Trace (α : Type) where
  run : Run α
  cancelled : Bool := false
  /-- How often the payload function was called. -/
  calls : Nat := 0
  /-- The categories added to the statistics. -/
  counts : List String := []
  notes : List Note := []
  /-- The faults that the producer has put into the report slot. -/
  reports : List Fault := []
  /-- The answers to calls for the next record. -/
  answers : List (Answer α) := []
  /-- The faults taken from the report slot without a call for the next record. -/
  faults : List Fault := []
  /-- The records taken from the buffer. -/
  taken : List (Record α) := []

/-- The faults that a producer's step puts into the report slot. -/
def newReports (before after : Run α) : List Fault :=
  match before.report with
  | none => after.report.toList
  | some _ => []

namespace Trace

/-- The history in which nothing has happened yet to a new run over a catalog. -/
def start (c : Catalog) (config : Config) (token : Token) : Trace α where
  run := .ofEntries c.entries token config.producerName config.capacity

/-- The trace after a step of the producer. -/
def moved (t : Trace α) (m : Move α) : Trace α :=
  { t with
    run := m.run
    calls := t.calls + m.effect.calls
    counts := t.counts ++ m.effect.counts
    notes := t.notes ++ m.notes
    reports := t.reports ++ newReports t.run m.run }

/-- The trace after a request with the given reply. -/
def served (t : Trace α) (p : Reply α × Run α) : Trace α :=
  { t with
    run := p.2
    answers := t.answers ++ p.1.answers
    faults := t.faults ++ p.1.faults
    taken := t.taken ++ p.1.records }

/-- The trace after one act, given what the payload function makes of an entry now.  A producer that
has no step to make leaves everything as it is. -/
def step (make : Entry → α × Stamp) (t : Trace α) : Act → Trace α
  | .produce =>
    match t.run.produce t.cancelled make with
    | some m => t.moved m
    | none => t
  | .serve q => t.served (t.run.serve t.cancelled q)
  | .cancel => { t with cancelled := true }

/-- The trace after some acts, given what the payload function makes of an entry in the call of each
number. -/
def after (make : Nat → Entry → α × Stamp) (t : Trace α) (acts : List Act) : Trace α :=
  acts.foldl (fun t a => t.step (make t.calls) a) t

variable {make : Nat → Entry → α × Stamp} {t : Trace α} {acts : List Act}

@[simp] theorem after_nil : t.after make [] = t := rfl

theorem after_cons (a : Act) :
    t.after make (a :: acts) = (t.step (make t.calls) a).after make acts := rfl

theorem after_append (later : List Act) :
    t.after make (acts ++ later) = (t.after make acts).after make later :=
  List.foldl_append

/-- What every act preserves holds after all of them. -/
theorem after_of_step {P : Trace α → Prop}
    (hstep : ∀ t, ∀ a ∈ acts, P t → P (t.step (make t.calls) a)) (h : P t) :
    P (t.after make acts) := by
  induction acts generalizing t with
  | nil => exact h
  | cons a acts ih =>
    rw [after_cons]
    exact ih (fun t b hb => hstep t b (List.mem_cons_of_mem a hb))
      (hstep t a List.mem_cons_self h)

/-- A step of the producer is one of its moves, or there is none. -/
theorem step_produce (make : Entry → α × Stamp) (t : Trace α) :
    (∃ m, Moves t.cancelled make t.run m ∧ t.step make .produce = t.moved m) ∨
      t.step make .produce = t := by
  rcases h : t.run.produce t.cancelled make with - | m
  · right
    simp only [step, h]
  · left
    exact ⟨m, produce_eq_some_iff.mp h, by simp only [step, h]⟩

/-- What holds as things stand, and after every move, request and cancellation from there, holds
after an act. -/
theorem step_cases {P : Trace α → Prop} {make : Entry → α × Stamp} {a : Act} (same : P t)
    (moved : ∀ m, Moves t.cancelled make t.run m → P (t.moved m))
    (served : ∀ q, a = .serve q → P (t.served (t.run.serve t.cancelled q)))
    (cancelled : P { t with cancelled := true }) : P (t.step make a) := by
  cases a with
  | produce =>
    obtain ⟨m, hm, ht⟩ | ht := step_produce make t
    · rw [ht]
      exact moved m hm
    · rw [ht]
      exact same
  | serve q => exact served q rfl
  | cancel => exact cancelled

@[simp] theorem step_serve (make : Entry → α × Stamp) (q : Request) :
    t.step make (.serve q) = t.served (t.run.serve t.cancelled q) := rfl

@[simp] theorem step_cancel (make : Entry → α × Stamp) :
    t.step make .cancel = { t with cancelled := true } := rfl

@[simp] theorem served_nothing (r : Run α) : t.served (.nothing, r) = { t with run := r } := by
  simp [served, Reply.answers, Reply.faults, Reply.records]

@[simp] theorem served_record (x : Record α) (r : Run α) :
    t.served (.answer (some (.ok x)), r)
      = { t with run := r, answers := t.answers ++ [some (.ok x)], taken := t.taken ++ [x] } := by
  simp [served, Reply.answers, Reply.faults, Reply.records]

@[simp] theorem served_error (f : Fault) (r : Run α) :
    t.served (.answer (some (.error f)), r)
      = { t with run := r, answers := t.answers ++ [some (.error f)] } := by
  simp [served, Reply.answers, Reply.faults, Reply.records]

@[simp] theorem served_end (r : Run α) :
    t.served (.answer none, r) = { t with run := r, answers := t.answers ++ [none] } := by
  simp [served, Reply.answers, Reply.faults, Reply.records]

end Trace

/-! ### What requests do to a run -/

section Requests

variable {cancelled : Bool} {r : Run α} {q : Request}

/-- `Serves cancelled r q p`: serving `q` comes to `p`, a reply and the run after it. -/
inductive Serves (cancelled : Bool) (r : Run α) : Request → Reply α × Run α → Prop
  | ask {a r'} (h : Asks cancelled r (a, r')) : Serves cancelled r .ask (.ofAnswer a, r')
  | receive {x rest} (hb : r.buffer = x :: rest) :
      Serves cancelled r .tryReceive (.record x, { r with buffer := rest, taken := r.taken + 1 })
  | receiveNothing (hb : r.buffer = []) : Serves cancelled r .tryReceive (.nothing, r)
  | report {f} (hr : r.report = some f) :
      Serves cancelled r .tryReport (.fault f, { r with report := none })
  | reportNothing (hr : r.report = none) : Serves cancelled r .tryReport (.nothing, r)
  | close : Serves cancelled r .close (.nothing, r.close)
  | dropReceiver : Serves cancelled r .dropReceiver (.nothing, r.dropReceiver)
  | drop : Serves cancelled r .drop (.nothing, r.drop)

theorem serves_serve (cancelled : Bool) (r : Run α) (q : Request) :
    Serves cancelled r q (r.serve cancelled q) := by
  cases q with
  | ask => exact .ask (asks_consume cancelled r)
  | tryReceive =>
    show Serves cancelled r .tryReceive (.ofReceived .record r.tryReceive.1, r.tryReceive.2)
    unfold tryReceive
    split
    next hb => exact .receive hb
    next hb => split <;> exact .receiveNothing hb
  | tryReport =>
    show Serves cancelled r .tryReport (.ofReceived .fault r.tryReport.1, r.tryReport.2)
    unfold tryReport
    split
    next hr => exact .report hr
    next hr => split <;> exact .reportNothing hr
  | close => exact .close
  | dropReceiver => exact .dropReceiver
  | drop => exact .drop

/-- Closing changes nothing but the receiver. -/
theorem close_eq (r : Run α) : r.close = { r with receiver := r.close.receiver } := by
  unfold close
  split <;> rfl

theorem receiver_ne_dropped (h : r.receiver = .listening) : r.receiver ≠ .dropped := by
  rw [h]
  exact nofun

theorem receiver_close_ne_listening (r : Run α) : r.close.receiver ≠ .listening := by
  unfold close
  split
  next => exact nofun
  next h => exact h

theorem receiver_close_eq_dropped_iff : r.close.receiver = .dropped ↔ r.receiver = .dropped := by
  unfold close
  split
  next h => simp [h]
  next => exact Iff.rfl

/-! ### What requests leave alone -/

/-- The producer's side of a run. -/
def upstream (r : Run α) : (Token × String × Nat × Nat) × List Entry × Stage α × Nat × Nat :=
  (r.settings, r.pending, r.stage, r.counted, r.emitted)

theorem upstream_close (r : Run α) : r.close.upstream = r.upstream := by
  rw [close_eq]
  rfl

theorem Asks.upstream_eq {p : Option (Answer α) × Run α} (h : Asks cancelled r p) :
    p.2.upstream = r.upstream := by
  cases h with
  | cut _ _ => exact upstream_close r
  | _ => rfl

/-- A request changes nothing on the producer's side of a run. -/
theorem Serves.upstream_eq {p : Reply α × Run α} (h : Serves cancelled r q p) :
    p.2.upstream = r.upstream := by
  cases h with
  | ask h => exact h.upstream_eq
  | close => exact upstream_close r
  | _ => rfl

section Frame

variable (cancelled : Bool) (r : Run α) (q : Request)

theorem upstream_serve : (r.serve cancelled q).2.upstream = r.upstream :=
  (serves_serve cancelled r q).upstream_eq

@[simp] theorem settings_serve : (r.serve cancelled q).2.settings = r.settings :=
  congrArg (·.1) (upstream_serve cancelled r q)

@[simp] theorem pending_serve : (r.serve cancelled q).2.pending = r.pending :=
  congrArg (·.2.1) (upstream_serve cancelled r q)

@[simp] theorem stage_serve : (r.serve cancelled q).2.stage = r.stage :=
  congrArg (·.2.2.1) (upstream_serve cancelled r q)

@[simp] theorem counted_serve : (r.serve cancelled q).2.counted = r.counted :=
  congrArg (·.2.2.2.1) (upstream_serve cancelled r q)

@[simp] theorem emitted_serve : (r.serve cancelled q).2.emitted = r.emitted :=
  congrArg (·.2.2.2.2) (upstream_serve cancelled r q)

@[simp] theorem isFinished_serve : (r.serve cancelled q).2.isFinished = r.isFinished := by
  simp only [isFinished, stage_serve]

end Frame

theorem Trace.settings_step (make : Entry → α × Stamp) (t : Trace α) (a : Act) :
    (t.step make a).run.settings = t.run.settings := by
  refine step_cases (P := fun u => u.run.settings = t.run.settings) rfl ?_ ?_ rfl
  · exact fun m hm => hm.settings_eq
  · exact fun q _ => settings_serve t.cancelled t.run q

theorem Trace.settings_after (make : Nat → Entry → α × Stamp) (t : Trace α) (acts : List Act) :
    (t.after make acts).run.settings = t.run.settings := by
  refine after_of_step (P := fun u => u.run.settings = t.run.settings) ?_ rfl
  intro u a _ h
  exact (settings_step (make u.calls) u a).trans h

/-! ### What requests do to the buffer and the report -/

/-- `Flow r r' records`: from `r` to `r'` the records leave the buffer for the consumer. -/
inductive Flow (r r' : Run α) : List (Record α) → Prop
  | take {x} (hb : r.buffer = x :: r'.buffer) (ht : r'.taken = r.taken + 1)
      (hr : r'.receiver = r.receiver) : Flow r r' [x]
  | keep (hb : r'.buffer = r.buffer) (ht : r'.taken = r.taken)
      (hr : r'.receiver = .dropped ↔ r.receiver = .dropped) : Flow r r' []
  | lose (hb : r'.buffer = []) (ht : r'.taken = r.taken) (hr : r'.receiver = .dropped) :
      Flow r r' []

theorem Flow.length_buffer_le {r' : Run α} {records : List (Record α)} (h : Flow r r' records) :
    r'.buffer.length ≤ r.buffer.length := by
  cases h with
  | take hb _ _ => rw [hb]; exact Nat.le_succ _
  | keep hb _ _ => exact Nat.le_of_eq (congrArg List.length hb)
  | lose hb _ _ => rw [hb]; exact Nat.zero_le _

theorem Flow.taken_eq {r' : Run α} {records : List (Record α)} (h : Flow r r' records) :
    r'.taken = r.taken + records.length := by
  cases h with
  | take _ ht _ | keep _ ht _ | lose _ ht _ => exact ht

theorem flow_close {r' : Run α} (hb : r'.buffer = r.close.buffer) (ht : r'.taken = r.close.taken)
    (hr : r'.receiver = r.close.receiver) : Flow r r' [] := by
  rw [close_eq] at hb ht
  exact .keep hb ht (hr ▸ receiver_close_eq_dropped_iff)

theorem Asks.flow {p : Option (Answer α) × Run α} (h : Asks cancelled r p) :
    Flow r p.2 (Reply.ofAnswer p.1).records := by
  cases h with
  | take _ hb => exact .take hb rfl rfl
  | cut _ _ => exact flow_close rfl rfl rfl
  | _ => exact .keep rfl rfl Iff.rfl

theorem Serves.flow {p : Reply α × Run α} (h : Serves cancelled r q p) :
    Flow r p.2 p.1.records := by
  cases h with
  | ask h => exact h.flow
  | receive hb => exact .take hb rfl rfl
  | close => exact flow_close rfl rfl rfl
  | dropReceiver | drop => exact .lose rfl rfl rfl
  | _ => exact .keep rfl rfl Iff.rfl

/-- A request leaves the report as it is or takes it away. -/
theorem Serves.report_eq {p : Reply α × Run α} (h : Serves cancelled r q p) :
    p.2.report = r.report ∨ p.2.report = none := by
  cases h with
  | ask h =>
    cases h with
    | fail _ _ => exact .inr rfl
    | cut _ _ =>
      left
      show r.close.report = r.report
      rw [close_eq]
    | _ => exact .inl rfl
  | close =>
    left
    show r.close.report = r.report
    rw [close_eq]
  | report _ | drop => exact .inr rfl
  | _ => exact .inl rfl

/-- A consumer that has stopped listening does not begin to listen again. -/
theorem Serves.listening {p : Reply α × Run α} (h : Serves cancelled r q p)
    (hr : p.2.receiver = .listening) : r.receiver = .listening := by
  cases h with
  | ask h =>
    cases h with
    | cut _ _ => exact absurd hr (receiver_close_ne_listening r)
    | _ => exact hr
  | close => exact absurd hr (receiver_close_ne_listening r)
  | dropReceiver | drop => cases hr
  | _ => exact hr

end Requests

end Run

end EmojiCatalog
