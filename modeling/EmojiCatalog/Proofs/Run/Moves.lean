import EmojiCatalog.Run.Consumer
/-!
The steps of a producer and of a consumer, one by one.

`Moves` lists everything that the producer of a run can do, with the condition under which it does
it: nine moves, of which one starts the run, four carry an entry from the list to the buffer, and
four end the run, one for each `Ending`.  `produce_eq_some_iff` says that `Run.produce` makes these
moves and no others.  Invariants of the producer are proved by cases on `Moves` and never unfold
`produce`.

A producer that makes no move has ended or is held up (`produce_eq_none_iff`), and every move leaves
less work (`Moves.work_lt`).

`Asks` does the same for the phases of a consumer's call for the next record; here every phase has a
result, so one lemma, `asks_consume`, is enough.
-/

namespace EmojiCatalog.Run

variable {α : Type} {cancelled : Bool} {make : Entry → α × Stamp} {r : Run α} {m : Move α}

/-! ### The moves -/

/-- `Moves cancelled make r m`: the producer of `r` can make the step `m`, given whether the token
is cancelled and what the payload function makes of an entry. -/
inductive Moves (cancelled : Bool) (make : Entry → α × Stamp) (r : Run α) : Move α → Prop
  | start (hs : r.stage = .starting) :
      Moves cancelled make r
        { run := { r with stage := .checking }, notes := [.started r.total r.capacity] }
  | complete (hs : r.stage = .checking) (hp : r.pending = []) :
      Moves cancelled make r
        { run := r.finish .completed, notes := [.ended .completed r.emitted r.total] }
  | stopBefore {e rest} (hs : r.stage = .checking) (hp : r.pending = e :: rest)
      (hc : cancelled = true) :
      Moves cancelled make r
        { run := (r.leaveReport .cancelled).finish .cancelledBeforeEntry
          notes := [.ended .cancelledBeforeEntry r.emitted r.total] }
  | begin {e rest} (hs : r.stage = .checking) (hp : r.pending = e :: rest)
      (hc : cancelled = false) :
      Moves cancelled make r { run := { r with stage := .building e, pending := rest } }
  | call {e} (hs : r.stage = .building e) :
      Moves cancelled make r
        { run := { r with
            stage := .counting e (.ofEntry e (make e).1 r.producedBy (make e).2) }
          effect := .callPayload }
  | count {e record} (hs : r.stage = .counting e record) :
      Moves cancelled make r
        { run := { r with stage := .sending e record, counted := r.counted + 1 }
          effect := .count e.category }
  | stopSending {e record} (hs : r.stage = .sending e record) (hc : cancelled = true) :
      Moves cancelled make r
        { run := (r.leaveReport .cancelled).finish .cancelledWhileSending
          notes := [.ended .cancelledWhileSending r.emitted r.total] }
  | giveUp {e record} (hs : r.stage = .sending e record) (hc : cancelled = false)
      (hr : r.receiver ≠ .listening) :
      Moves cancelled make r
        { run := r.finish .consumerGone, notes := [.ended .consumerGone r.emitted r.total] }
  | send {e record} (hs : r.stage = .sending e record) (hc : cancelled = false)
      (hr : r.receiver = .listening) (hb : r.buffer.length < r.capacity) :
      Moves cancelled make r { run := r.push record, notes := progressNotes (r.emitted + 1) e }

/-- The moves are the steps that `produce` makes. -/
theorem produce_eq_some_iff : r.produce cancelled make = some m ↔ Moves cancelled make r m := by
  constructor
  · intro h
    unfold produce at h
    split at h
    next hs => cases h; exact .start hs
    next hs =>
      split at h
      next hp => cases h; exact .complete hs hp
      next hp =>
        split at h
        next hc => cases h; exact .stopBefore hs hp hc
        next hc => cases h; exact .begin hs hp (Bool.eq_false_iff.mpr hc)
    next hs => cases h; exact .call hs
    next hs => cases h; exact .count hs
    next hs =>
      split at h
      next hc => cases h; exact .stopSending hs hc
      next hc =>
        have hc := Bool.eq_false_iff.mpr hc
        split at h
        next hr => cases h; exact .giveUp hs hc hr
        next hr =>
          split at h
          next hb => cases h; exact .send hs hc (Decidable.not_not.mp hr) hb
          next => cases h
    next => cases h
  · intro h
    cases h with
    | start hs => simp only [produce, hs]
    | complete hs hp => simp only [produce, hs, hp]
    | stopBefore hs hp hc => simp only [produce, hs, hp, hc, if_true]
    | begin hs hp hc => simp only [produce, hs, hp, hc, Bool.false_eq_true, if_false]
    | call hs => simp only [produce, hs]
    | count hs => simp only [produce, hs]
    | stopSending hs hc => simp only [produce, hs, hc, if_true]
    | giveUp hs hc hr =>
      simp only [produce, hs, hc, Bool.false_eq_true, if_false, ne_eq, hr, not_false_eq_true,
        if_true]
    | send hs hc hr hb =>
      simp only [produce, hs, hc, Bool.false_eq_true, if_false, ne_eq, hr, not_true_eq_false, hb,
        if_true]

/-! ### No move -/

/-- The producer of a run waits with a record for room in the buffer. -/
def IsHeldUp (cancelled : Bool) (r : Run α) : Prop :=
  cancelled = false ∧ r.receiver = .listening ∧ r.capacity ≤ r.buffer.length ∧
    ∃ e record, r.stage = .sending e record

theorem isFinished_iff : r.isFinished = true ↔ ∃ how, r.stage = .finished how := by
  unfold isFinished
  cases r.stage <;> simp

/-- A producer makes no step exactly when it has ended or is held up. -/
theorem produce_eq_none_iff :
    r.produce cancelled make = none ↔ r.isFinished = true ∨ r.IsHeldUp cancelled := by
  constructor
  · intro h
    cases hs : r.stage with
    | starting => simp [produce, hs] at h
    | checking =>
      -- with an entry left the producer goes on or stops, without one it completes
      cases hp : r.pending <;> simp only [produce, hs, hp] at h
      · cases h
      · split at h <;> cases h
    | building e => simp [produce, hs] at h
    | counting e record => simp [produce, hs] at h
    | sending e record =>
      simp only [produce, hs] at h
      by_cases hc : cancelled = true
      · rw [if_pos hc] at h
        cases h
      · by_cases hr : r.receiver = .listening
        · by_cases hb : r.buffer.length < r.capacity
          · simp [hc, hr, hb] at h
          · exact Or.inr ⟨Bool.eq_false_iff.mpr hc, hr, Nat.le_of_not_lt hb, e, record, hs⟩
        · simp [hc, hr] at h
    | finished how => exact Or.inl (isFinished_iff.mpr ⟨how, hs⟩)
  · rintro (h | ⟨hc, hr, hb, e, record, hs⟩)
    · obtain ⟨how, hs⟩ := isFinished_iff.mp h
      simp only [produce, hs]
    · simp only [produce, hs, hc, hr, Nat.not_lt.mpr hb, Bool.false_eq_true, if_false, ne_eq,
        not_true_eq_false]

/-! ### What all moves have in common -/

/-- What a run is given at its start and keeps. -/
def settings (r : Run α) : Token × String × Nat × Nat :=
  (r.token, r.producedBy, r.capacity, r.total)

theorem Moves.settings_eq (h : Moves cancelled make r m) : m.run.settings = r.settings := by
  cases h <;> rfl

/-- A producer that has ended makes no move. -/
theorem Moves.not_isFinished (h : Moves cancelled make r m) : r.isFinished = false := by
  unfold isFinished
  cases h with
  | start hs => rw [hs]
  | complete hs _ | stopBefore hs _ _ | begin hs _ _ => rw [hs]
  | call hs | count hs => rw [hs]
  | stopSending hs _ | giveUp hs _ _ | send hs _ _ _ => rw [hs]

/-- Every move leaves less work. -/
theorem Moves.work_lt (h : Moves cancelled make r m) : m.run.work < r.work := by
  cases h with
  | start hs => simp [work, hs]
  | complete hs hp => simp [work, hs, hp, finish]
  | stopBefore hs hp _ => simp [work, hs, hp, finish, leaveReport]
  | begin hs hp _ => simp [work, hs, hp]; omega
  | call hs => simp [work, hs]
  | count hs => simp [work, hs]
  | stopSending hs _ => simp [work, hs, finish, leaveReport]
  | giveUp hs _ _ => simp [work, hs, finish]
  | send hs _ _ _ => simp [work, hs, push]

/-! ### The phases of a call -/

/-- `Asks cancelled r p`: taking a consumer's call one phase further comes to `p`, an answer or none
yet and the run after it, given whether the token is cancelled. -/
inductive Asks (cancelled : Bool) (r : Run α) : Option (Answer α) × Run α → Prop
  | atEnd (hp : r.phase = .idle) (hd : r.isDone = true) : Asks cancelled r (some none, r)
  | cut (hp : r.phase = .idle ∧ r.isDone = false ∨ r.phase = .polling) (hc : cancelled = true) :
      Asks cancelled r (some (some (.error .cancelled)), r.stop)
  | enter (hp : r.phase = .idle) (hd : r.isDone = false) (hc : cancelled = false) :
      Asks cancelled r (none, { r with phase := .polling })
  | look (hp : r.phase = .polling) (hc : cancelled = false) :
      Asks cancelled r (none, { r with phase := .receiving })
  | take {x rest} (hp : r.phase = .receiving) (hb : r.buffer = x :: rest) :
      Asks cancelled r
        (some (some (.ok x)), { r with buffer := rest, taken := r.taken + 1, phase := .idle })
  | wait (hp : r.phase = .receiving) (hb : r.buffer = []) (hd : r.isDrying = false) :
      Asks cancelled r (none, { r with phase := .polling })
  | dry (hp : r.phase = .receiving) (hb : r.buffer = []) (hd : r.isDrying = true) :
      Asks cancelled r (none, { r with isDone := true, phase := .awaitingReport })
  | fail {f} (hp : r.phase = .awaitingReport) (hr : r.report = some f) :
      Asks cancelled r (some (some (.error f)), { r with report := none, phase := .idle })
  | finish (hp : r.phase = .awaitingReport) (hr : r.report = none) (hf : r.isFinished = true) :
      Asks cancelled r (some none, { r with phase := .idle })
  | await (hp : r.phase = .awaitingReport) (hr : r.report = none) (hf : r.isFinished = false) :
      Asks cancelled r (none, r)

theorem asks_consume (cancelled : Bool) (r : Run α) : Asks cancelled r (r.consume cancelled) := by
  unfold consume
  split
  next hp =>
    unfold begin
    split
    next hd => exact .atEnd hp hd
    next hd =>
      have hd := Bool.eq_false_iff.mpr hd
      split
      next hc => exact .cut (.inl ⟨hp, hd⟩) hc
      next hc => exact .enter hp hd (Bool.eq_false_iff.mpr hc)
  next hp =>
    unfold poll
    split
    next hc => exact .cut (.inr hp) hc
    next hc => exact .look hp (Bool.eq_false_iff.mpr hc)
  next hp =>
    unfold receive
    split
    next hb => exact .take hp hb
    next hb =>
      split
      next hd => exact .dry hp hb hd
      next hd => exact .wait hp hb (Bool.eq_false_iff.mpr hd)
  next hp =>
    unfold takeReport
    split
    next hr => exact .fail hp hr
    next hr =>
      split
      next hf => exact .finish hp hr hf
      next hf => exact .await hp hr (Bool.eq_false_iff.mpr hf)

end EmojiCatalog.Run
