import EmojiCatalog.Proofs.Run.Trace
/-!
Runs up to what they are given from outside.

The stamps of its records and the number of its token come to a run from outside, so two runs can at
best do the same up to these.  Erasing them is compatible with everything that a run does: its
producer makes the same moves and its consumer gets the same replies, because nothing in a run looks
at a stamp or at the number of its token.
-/

namespace EmojiCatalog

variable {α : Type}

/-! ### Erasing stamps and tokens -/

/-- The record with an empty stamp. -/
def Record.unstamped (x : Record α) : Record α :=
  { x with metadata := { x.metadata with stamp := default } }

/-- The stage with the stamp of the record in hand erased. -/
def Stage.unstamped : Stage α → Stage α
  | .counting e x => .counting e x.unstamped
  | .sending e x => .sending e x.unstamped
  | .starting => .starting
  | .checking => .checking
  | .building e => .building e
  | .finished how => .finished how

namespace Run

/-- The run without the number of its token and without the stamps of its records. -/
def anonymous (r : Run α) : Run α :=
  { r with
    token := Tokens.root
    stage := r.stage.unstamped
    buffer := r.buffer.map (·.unstamped) }

/-- The move of the run without the number of its token and without stamps. -/
def Move.anonymous (m : Move α) : Move α := { m with run := m.run.anonymous }

/-- The answer with the stamp of its record erased. -/
def unstampedAnswer (a : Answer α) : Answer α := a.map (·.map (·.unstamped))

/-- The reply with the stamp of its record erased. -/
def Reply.unstamped : Reply α → Reply α
  | .nothing => .nothing
  | .answer a => .answer (unstampedAnswer a)
  | .record x => .record x.unstamped
  | .fault f => .fault f

theorem Reply.records_unstamped (x : Reply α) :
    x.unstamped.records = x.records.map (·.unstamped) := by
  rcases x with - | (- | - | x) | x | f <;> rfl

variable {cancelled : Bool} {r : Run α} {m : Move α}

theorem stage_anonymous {s : Stage α} (hs : r.stage = s) : r.anonymous.stage = s.unstamped :=
  congrArg Stage.unstamped hs

@[simp] theorem isFinished_anonymous (r : Run α) : r.anonymous.isFinished = r.isFinished := by
  unfold isFinished anonymous
  cases r.stage <;> rfl

@[simp] theorem anonymous_push (r : Run α) (x : Record α) :
    (r.push x).anonymous = r.anonymous.push x.unstamped := by
  simp only [push, anonymous, List.map_append, List.map_cons, List.map_nil]
  rfl

theorem isHeldUp_anonymous : r.anonymous.IsHeldUp cancelled ↔ r.IsHeldUp cancelled := by
  have hstage : (∃ e x, r.stage.unstamped = .sending e x) ↔ ∃ e x, r.stage = .sending e x := by
    cases r.stage <;> simp [Stage.unstamped]
  unfold IsHeldUp
  simp only [anonymous, List.length_map, hstage]

/-! ### The producer -/

variable {make : Entry → α × Stamp} {f : Entry → α}

/-- The producer makes the same moves whatever the stamps and the token. -/
theorem Moves.anonymous (hf : ∀ e, (make e).1 = f e) (h : Moves cancelled make r m) :
    Moves cancelled (fun e => (f e, default)) r.anonymous m.anonymous := by
  cases h with
  | start hs => exact .start (stage_anonymous hs)
  | complete hs hp => exact .complete (stage_anonymous hs) hp
  | stopBefore hs hp hc => exact .stopBefore (stage_anonymous hs) hp hc
  | begin hs hp hc => exact .begin (stage_anonymous hs) hp hc
  | @call e hs =>
    rw [hf e]
    exact .call (stage_anonymous hs)
  | count hs => exact .count (stage_anonymous hs)
  | stopSending hs hc => exact .stopSending (stage_anonymous hs) hc
  | giveUp hs hc hr => exact .giveUp (stage_anonymous hs) hc hr
  | send hs hc hr hb =>
    rw [Move.anonymous, anonymous_push]
    refine .send (stage_anonymous hs) hc hr ?_
    rw [Run.anonymous, List.length_map]
    exact hb

theorem produce_anonymous (hf : ∀ e, (make e).1 = f e) :
    r.anonymous.produce cancelled (fun e => (f e, default))
      = (r.produce cancelled make).map (·.anonymous) := by
  cases hm : r.produce cancelled make with
  | none =>
    have hrest := produce_eq_none_iff.mp hm
    rw [Option.map_none, produce_eq_none_iff, isFinished_anonymous, isHeldUp_anonymous]
    exact hrest
  | some m =>
    rw [Option.map_some, produce_eq_some_iff]
    exact (produce_eq_some_iff.mp hm).anonymous hf

/-! ### The consumer -/

theorem anonymous_close (r : Run α) : r.close.anonymous = r.anonymous.close := by
  obtain ⟨_, _, _, _, _, _, _, receiver, _⟩ := r
  cases receiver <;> rfl

theorem anonymous_stop (r : Run α) : r.stop.anonymous = r.anonymous.stop := by
  obtain ⟨_, _, _, _, _, _, _, receiver, _⟩ := r
  cases receiver <;> rfl

@[simp] theorem isDrying_anonymous (r : Run α) : r.anonymous.isDrying = r.isDrying := by
  unfold isDrying
  rw [isFinished_anonymous]
  rfl

/-- A phase of a call comes to the same whatever the stamps and the token. -/
theorem consume_anonymous (cancelled : Bool) (r : Run α) :
    r.anonymous.consume cancelled
      = ((r.consume cancelled).1.map unstampedAnswer, (r.consume cancelled).2.anonymous) := by
  have hasks := asks_consume cancelled r
  generalize r.consume cancelled = p at hasks ⊢
  have hphase : r.anonymous.phase = r.phase := rfl
  have hdone : r.anonymous.isDone = r.isDone := rfl
  have hreport : r.anonymous.report = r.report := rfl
  have hbuffer : r.anonymous.buffer = r.buffer.map (·.unstamped) := rfl
  cases hasks with
  | atEnd hp hd =>
    simp only [consume, begin, hphase, hp, hdone, hd, if_true]
    rfl
  | cut hp hc =>
    obtain ⟨hp, hd⟩ | hp := hp
    · simp only [consume, begin, hphase, hp, hdone, hd, hc, Bool.false_eq_true, if_true, if_false,
        anonymous_stop]
      rfl
    · simp only [consume, poll, hphase, hp, hc, if_true, anonymous_stop]
      rfl
  | enter hp hd hc =>
    simp only [consume, begin, hphase, hp, hdone, hd, hc, Bool.false_eq_true, if_false]
    rfl
  | look hp hc =>
    simp only [consume, poll, hphase, hp, hc, Bool.false_eq_true, if_false]
    rfl
  | take hp hb =>
    simp only [consume, receive, hphase, hp, hbuffer, hb, List.map_cons]
    rfl
  | wait hp hb hd =>
    simp only [consume, receive, hphase, hp, hbuffer, hb, List.map_nil, isDrying_anonymous, hd,
      Bool.false_eq_true, if_false]
    rfl
  | dry hp hb hd =>
    simp only [consume, receive, hphase, hp, hbuffer, hb, List.map_nil, isDrying_anonymous, hd,
      if_true]
    rfl
  | fail hp hr =>
    simp only [consume, takeReport, hphase, hp, hreport, hr]
    rfl
  | finish hp hr hf =>
    simp only [consume, takeReport, hphase, hp, hreport, hr, isFinished_anonymous, hf, if_true]
    rfl
  | await hp hr hf =>
    simp only [consume, takeReport, hphase, hp, hreport, hr, isFinished_anonymous, hf,
      Bool.false_eq_true, if_false]
    rfl

/-- A request gets the same reply whatever the stamps and the token. -/
theorem serve_anonymous (cancelled : Bool) (r : Run α) (q : Request) :
    r.anonymous.serve cancelled q
      = ((r.serve cancelled q).1.unstamped, (r.serve cancelled q).2.anonymous) := by
  cases q with
  | ask =>
    rw [serve, serve, consume_anonymous]
    cases (r.consume cancelled).1 <;> rfl
  | tryReceive =>
    rw [serve, serve, tryReceive, tryReceive]
    have hbuffer : r.anonymous.buffer = r.buffer.map (·.unstamped) := rfl
    rw [hbuffer]
    cases r.buffer with
    | cons x rest => rfl
    | nil => cases hd : r.isDrying <;> simp [hd] <;> rfl
  | tryReport =>
    rw [serve, serve, tryReport, tryReport]
    have hreport : r.anonymous.report = r.report := rfl
    rw [hreport]
    cases r.report with
    | some f => rfl
    | none => cases hf : r.isFinished <;> simp [hf] <;> rfl
  | close =>
    rw [serve, serve, anonymous_close]
    rfl
  | dropReceiver | drop => rfl

end Run

end EmojiCatalog
