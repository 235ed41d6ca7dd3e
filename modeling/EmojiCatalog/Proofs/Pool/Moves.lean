import EmojiCatalog.Pool.Basic
/-!
The steps of a worker, and the histories of a pool.

`Worker.Moves` lists everything that a worker can do, with the condition under which it does it.
Three moves end the worker: it has no query left, it finds the token cancelled, or its plan breaks
down.  The others take it through a query, and an answered and a failed query both lead back to the
check before the next one.  Invariants of a worker are proved by cases on `Moves` and never unfold
`Worker.step`.

A history of a pool is a list of acts: some worker makes a step, or the token is cancelled from
outside.  So the lists of acts are the interleavings of the workers with cancellations; a plan may
cancel the token as well.  What every act preserves holds after all of them (`Pool.after_of_act`),
and to one worker an act does nothing or takes it through a move (`Pool.worker_act_cases`).
-/

namespace EmojiCatalog

variable {c : Catalog} {plan : Plan} {queries : Nat} {cancelled : Bool}

namespace Worker

variable {w : Worker} {m : Move}

/-- `Moves c plan queries cancelled w m`: the worker `w` can make the step `m`, given whether the
token is cancelled. -/
inductive Moves (c : Catalog) (plan : Plan) (queries : Nat) (cancelled : Bool) (w : Worker) :
    Move → Prop
  | finish (hs : w.stage = .checking) (hi : queries ≤ w.index) :
      Moves c plan queries cancelled w { worker := { w with stage := .finished } }
  | stop (hs : w.stage = .checking) (hi : w.index < queries) (hc : cancelled = true) :
      Moves c plan queries cancelled w
        { worker := { w with outcome := w.outcome.stopped, stage := .finished }
          events := [⟨.debug, "Query worker cancelled",
            [("worker_id", .nat w.outcome.workerId), ("completed", .nat w.index)]⟩] }
  | check (hs : w.stage = .checking) (hi : w.index < queries) (hc : cancelled = false) :
      Moves c plan queries cancelled w { worker := { w with stage := .asking } }
  | ask {q} (hs : w.stage = .asking) (hq : plan.query w.outcome.workerId w.index = some q) :
      Moves c plan queries cancelled w
        { worker := { w with stage := .searching q }
          cancels := plan.cancels w.outcome.workerId w.index }
  | lose (hs : w.stage = .asking) (hq : plan.query w.outcome.workerId w.index = none) :
      Moves c plan queries cancelled w
        { worker := { w with stage := .lost }
          cancels := plan.cancels w.outcome.workerId w.index }
  | answer {q hits} (hs : w.stage = .searching q) (hr : c.search q = .ok hits) :
      Moves c plan queries cancelled w
        { worker := { outcome := w.outcome.recordSuccess, index := w.index + 1 }
          events := q.searchEvents (.ok hits) ++ (w.record (.ok hits)).2 }
  | fail {q f} (hs : w.stage = .searching q) (hr : c.search q = .error f) :
      Moves c plan queries cancelled w
        { worker := { outcome := w.outcome.recordError, index := w.index + 1 }
          events := q.searchEvents (.error f) ++ (w.record (.error f)).2 }

/-- The moves are the steps that a worker makes. -/
theorem step_eq_some_iff :
    w.step c plan queries cancelled = some m ↔ Moves c plan queries cancelled w m := by
  constructor
  · intro h
    unfold step at h
    split at h
    next hs =>
      split at h
      next hi => cases h; exact .finish hs hi
      next hi =>
        have hi := Nat.lt_of_not_le hi
        split at h
        next hc => cases h; exact .stop hs hi hc
        next hc => cases h; exact .check hs hi (Bool.eq_false_iff.mpr hc)
    next hs =>
      dsimp only at h
      split at h
      next hq => cases h; exact .ask hs hq
      next hq => cases h; exact .lose hs hq
    next q hs =>
      cases hr : c.search q with
      | ok hits =>
        rw [hr] at h
        cases h
        exact .answer hs hr
      | error f =>
        rw [hr] at h
        cases h
        exact .fail hs hr
    next => cases h
    next => cases h
  · intro h
    cases h with
    | finish hs hi => simp only [step, hs, hi, if_true]
    | stop hs hi hc => simp only [step, hs, Nat.not_le.mpr hi, hc, if_true, if_false]
    | check hs hi hc =>
      simp only [step, hs, Nat.not_le.mpr hi, hc, Bool.false_eq_true, if_false]
    | ask hs hq => simp only [step, hs, hq]
    | lose hs hq => simp only [step, hs, hq]
    | answer hs hr => simp only [step, hs, hr, record]
    | fail hs hr => simp only [step, hs, hr, record]

theorem isFinished_iff : w.isFinished = true ↔ w.stage = .finished ∨ w.stage = .lost := by
  unfold isFinished
  cases w.stage <;> simp

/-- Only a worker that has ended makes no step. -/
theorem isFinished_of_step_eq_none (h : w.step c plan queries cancelled = none) :
    w.isFinished = true := by
  rw [isFinished_iff]
  unfold step at h
  split at h
  next =>
    split at h
    · cases h
    · split at h <;> cases h
  next =>
    dsimp only at h
    split at h <;> cases h
  next => cases h
  next hs => exact .inl hs
  next hs => exact .inr hs

end Worker

/-! ### Histories -/

namespace Pool

/-- What can happen to a pool. -/
inductive Act where
  /-- A worker makes a step, if it has one to make. -/
  | step (i : Nat)
  /-- The token is cancelled from outside. -/
  | cancel
  deriving DecidableEq, Repr

/-- The pool after one act. -/
def act (c : Catalog) (plan : Plan) (p : Pool) : Act → Pool
  | .step i => p.advance c plan i
  | .cancel => { p with cancelled := true }

/-- The pool after some acts. -/
def after (c : Catalog) (plan : Plan) (p : Pool) (acts : List Act) : Pool :=
  acts.foldl (act c plan) p

variable {p : Pool} {acts : List Act}

theorem after_cons (a : Act) :
    p.after c plan (a :: acts) = (p.act c plan a).after c plan acts := rfl

theorem after_append (later : List Act) :
    p.after c plan (acts ++ later) = (p.after c plan acts).after c plan later :=
  List.foldl_append

/-- What every act preserves holds after all of them. -/
theorem after_of_act {P : Pool → Prop} (hact : ∀ p a, P p → P (p.act c plan a)) (h : P p) :
    P (p.after c plan acts) := by
  induction acts generalizing p with
  | nil => exact h
  | cons a acts ih =>
    rw [after_cons]
    exact ih (hact p a h)

/-- The pool after a move of the worker of the given number. -/
def moved (p : Pool) (i : Nat) (m : Worker.Move) : Pool :=
  { p with
    workers := p.workers.set i m.worker
    cancelled := p.cancelled || m.cancels
    events := p.events ++ m.events }

/-- A step of a worker is one of its moves, or there is none. -/
theorem advance_cases (c : Catalog) (plan : Plan) (p : Pool) (i : Nat) :
    (∃ w m, p.workers[i]? = some w ∧ w.Moves c plan p.queries p.cancelled m ∧
        p.advance c plan i = p.moved i m) ∨
      p.advance c plan i = p ∧ ∀ w, p.workers[i]? = some w → w.isFinished = true := by
  cases hw : p.workers[i]? with
  | none =>
    right
    constructor
    · simp only [advance, stepWorker, hw, Option.bind_eq_bind, Option.bind_none, Option.getD_none]
    · exact nofun
  | some w =>
    cases hm : w.step c plan p.queries p.cancelled with
    | none =>
      right
      constructor
      · simp only [advance, stepWorker, hw, hm, Option.bind_eq_bind, Option.bind_some,
          Option.bind_none, Option.getD_none]
      · rintro _ ⟨⟩
        exact Worker.isFinished_of_step_eq_none hm
    | some m =>
      left
      refine ⟨w, m, rfl, Worker.step_eq_some_iff.mp hm, ?_⟩
      simp only [advance, stepWorker, hw, hm, Option.bind_eq_bind, Option.bind_some]
      rfl

/-- What holds as things stand, after every move of a worker, and after a cancellation, holds after
an act. -/
theorem act_cases {P : Pool → Prop} {a : Act} (same : P p)
    (moved : ∀ i w m, a = .step i → p.workers[i]? = some w →
      w.Moves c plan p.queries p.cancelled m → P (p.moved i m))
    (cancelled : P { p with cancelled := true }) : P (p.act c plan a) := by
  cases a with
  | step i =>
    rw [act]
    obtain ⟨w, m, hw, hm, h⟩ | ⟨h, -⟩ := advance_cases c plan p i
    · rw [h]
      exact moved i w m rfl hw hm
    · rw [h]
      exact same
  | cancel => exact cancelled

/-- An act leaves a worker as it is, or it is a step of this worker and takes it through a move. -/
theorem worker_act_cases (c : Catalog) (plan : Plan) {i : Nat} {w : Worker}
    (hw : p.workers[i]? = some w) (a : Act) :
    ((p.act c plan a).workers[i]? = some w ∧ (a = .step i → w.isFinished = true)) ∨
      a = .step i ∧ ∃ m, w.Moves c plan p.queries p.cancelled m ∧
        (p.act c plan a).workers[i]? = some m.worker := by
  cases a with
  | cancel => exact .inl ⟨hw, fun h => by cases h⟩
  | step j =>
    rw [act]
    obtain ⟨x, m, hx, hm, hadvance⟩ | ⟨hadvance, hended⟩ := advance_cases c plan p j
    · rw [hadvance]
      by_cases hji : j = i
      · subst hji
        obtain rfl : w = x := Option.some.inj (hw.symm.trans hx)
        have hlt : j < p.workers.length := (List.getElem?_eq_some_iff.mp hw).1
        exact .inr ⟨rfl, m, hm, List.getElem?_set_self hlt⟩
      · left
        exact ⟨(List.getElem?_set_ne hji).trans hw, fun h => absurd (Act.step.inj h) hji⟩
    · rw [hadvance]
      refine .inl ⟨hw, fun h => ?_⟩
      cases h
      exact hended w hw

end Pool

end EmojiCatalog
