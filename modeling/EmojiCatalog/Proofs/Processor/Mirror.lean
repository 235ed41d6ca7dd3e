import EmojiCatalog.Processor
import EmojiCatalog.Proofs.Run.Conservation
import EmojiCatalog.Proofs.Run.Reach
import EmojiCatalog.Proofs.Tokens
/-!
One run among the others.

`Mirrors p i t` says that the history `t` of a single run stands where the run of number `i` of the
processor `p` stands.  Whatever happens in the processor, such a history can be continued so that it
does so again: a step of the run's own producer and a request of its own consumer are acts of the
history, and everything else can only cancel its token.  So what is proved for all histories of one
run holds of every run of every processor.

The payload function of the processor may be called for other runs in between, and may cancel tokens
when it is called.  Histories allow for both, because in them the function may answer every call
differently and a cancellation may come after any act.
-/

namespace EmojiCatalog

open Run (Trace Act Moves)

variable {α : Type}

/-- `payload.Gives f`: in one of its calls the payload function makes of every entry what `f`
says. -/
def Payload.Gives (payload : Payload α) (f : Entry → α × Stamp) : Prop :=
  ∃ n, f = fun e => (payload.make n e, payload.stamp n)

namespace Processor

variable {p q : Processor α} {i j : Nat} {t : Trace α}

/-! ### What an effect does -/

/-- What a processor is given at its start and keeps. -/
def settings (p : Processor α) : Catalog × Config × Payload α × Metrics :=
  (p.catalog, p.config, p.payload, p.metrics)

theorem gives_makeNow (p : Processor α) : p.payload.Gives p.makeNow := ⟨p.calls, rfl⟩

/-- An effect changes nothing but the number of calls, the statistics and the tokens. -/
theorem perform_eq (p : Processor α) (e : Effect) :
    p.perform e = { p with
      calls := p.calls + e.calls
      tally := p.tally.incrementAll e.counts
      tokens := (p.perform e).tokens } := by
  unfold perform
  split
  · rfl
  · dsimp only
    split <;> rfl
  · rfl

/-- An effect cancels nothing, except that a call of the payload function may. -/
theorem tokens_perform (e : Effect) (h : p.payload.cancels p.calls = false) :
    (p.perform e).tokens = p.tokens := by
  cases e with
  | none | count _ => rfl
  | callPayload =>
    rw [perform, h]
    rfl

theorem isCancelled_cancel {r : Run α} (u : Token) (h : p.isCancelled r = true) :
    (p.cancel u).isCancelled r = true :=
  Tokens.isCancelled_cancel h

theorem isCancelled_perform {r : Run α} (e : Effect) (h : p.isCancelled r = true) :
    (p.perform e).isCancelled r = true := by
  unfold perform
  split
  · exact h
  · dsimp only
    split
    · exact isCancelled_cancel Tokens.root h
    · exact h
  · exact h

/-- The processor after a move of a run's producer. -/
def moved (p : Processor α) (j : Nat) (m : Run.Move α) : Processor α :=
  ({ p with runs := p.runs.set j m.run }.perform m.effect).note (m.notes.map Run.Note.event)

/-- The producer of a run steps as its run does. -/
theorem stepRun_eq {r : Run α} (hr : p.runs[j]? = some r) :
    p.stepRun j = (r.produce (p.isCancelled r) p.makeNow).map (p.moved j) := by
  rw [stepRun, hr]
  cases hm : r.produce (p.isCancelled r) p.makeNow with
  | none => simp only [Option.bind_eq_bind, Option.bind_some, hm, Option.bind_none, Option.map_none]
  | some m =>
    simp only [Option.bind_eq_bind, Option.bind_some, hm, Option.map_some]
    rfl

theorem exists_moved_of_stepRun (h : p.stepRun j = some q) :
    ∃ r m, p.runs[j]? = some r ∧ Moves (p.isCancelled r) p.makeNow r m ∧ p.moved j m = q := by
  cases hr : p.runs[j]? with
  | none =>
    rw [stepRun, hr] at h
    cases h
  | some r =>
    rw [stepRun_eq hr, Option.map_eq_some_iff] at h
    obtain ⟨m, hm, hq⟩ := h
    exact ⟨r, m, rfl, Run.produce_eq_some_iff.mp hm, hq⟩

/-- A producer makes no step exactly when it has ended or is held up. -/
theorem stepRun_eq_none_iff {r : Run α} (hr : p.runs[j]? = some r) :
    p.stepRun j = none ↔ r.isFinished = true ∨ r.IsHeldUp (p.isCancelled r) := by
  rw [stepRun_eq hr, Option.map_eq_none_iff, Run.produce_eq_none_iff]

/-- A step of a producer is a move of its run, and the move's effect. -/
theorem exists_of_stepRun (h : p.stepRun j = some q) :
    ∃ r m, p.runs[j]? = some r ∧ Moves (p.isCancelled r) p.makeNow r m ∧
      q.runs = p.runs.set j m.run ∧ q.settings = p.settings ∧
      q.tally = p.tally.incrementAll m.effect.counts ∧
      ∀ r : Run α, p.isCancelled r = true → q.isCancelled r = true := by
  obtain ⟨r, m, hr, hm, rfl⟩ := exists_moved_of_stepRun h
  have hperform := perform_eq { p with runs := p.runs.set j m.run } m.effect
  refine ⟨r, m, hr, hm, ?_, ?_, ?_, ?_⟩
  · exact congrArg (·.runs) hperform
  · exact congrArg (·.settings) hperform
  · exact congrArg (·.tally) hperform
  · exact fun r hr => isCancelled_perform (p := { p with runs := _ }) m.effect hr

/-- The step of a producer cancels nothing if the payload function does not. -/
theorem tokens_of_stepRun (hcancels : p.payload.cancels p.calls = false)
    (h : p.stepRun j = some q) : q.tokens = p.tokens := by
  obtain ⟨r, m, -, -, rfl⟩ := exists_moved_of_stepRun h
  exact tokens_perform (p := { p with runs := p.runs.set j m.run }) m.effect hcancels

/-! ### The history of a run -/

/-- The history stands where the run of the given number stands. -/
structure Mirrors (p : Processor α) (i : Nat) (t : Trace α) : Prop where
  run_eq : p.runs[i]? = some t.run
  cancelled_eq : t.cancelled = p.isCancelled t.run

/-- A history can always catch up with the marks of the tokens. -/
theorem Mirrors.mark (hrun : q.runs[i]? = some t.run)
    (hmark : t.cancelled = true → q.isCancelled t.run = true) :
    Mirrors q i (t.mark (q.isCancelled t.run)) :=
  ⟨hrun, Trace.cancelled_mark hmark⟩

theorem isCancelled_congr (p : Processor α) {r r' : Run α} (h : r.settings = r'.settings) :
    p.isCancelled r = p.isCancelled r' := by
  have htoken : r.token = r'.token := congrArg (·.1) h
  rw [isCancelled, isCancelled, htoken]

/-- A step of any producer continues the history of each run. -/
theorem Mirrors.stepRun (h : Mirrors p i t) (hq : p.stepRun j = some q) :
    let u := if j = i then t.step p.makeNow .produce else t
    Mirrors q i (u.mark (q.isCancelled u.run)) := by
  intro u
  obtain ⟨r, m, hr, hm, hruns, -, -, hmarks⟩ := exists_of_stepRun hq
  have hsettings : u.run.settings = t.run.settings := by
    show (if j = i then t.step p.makeNow .produce else t).run.settings = t.run.settings
    split
    · exact Trace.settings_step p.makeNow t .produce
    · rfl
  apply Mirrors.mark
  -- the step is a move of this run, or of another one that leaves this one where it stands
  · by_cases hji : j = i
    · subst hji
      have hrt : t.run = r := Option.some.inj (h.run_eq.symm.trans hr)
      have hmoved : u = t.moved m := by
        rw [← hrt, ← h.cancelled_eq] at hm
        show (if j = j then t.step p.makeNow .produce else t) = t.moved m
        rw [if_pos rfl, Trace.step, Run.produce_eq_some_iff.mpr hm]
      have hlt : j < p.runs.length := (List.getElem?_eq_some_iff.mp hr).1
      rw [hruns, hmoved, List.getElem?_set_self hlt]
      rfl
    · have hsame : u = t := if_neg hji
      rw [hruns, hsame, List.getElem?_set_ne hji]
      exact h.run_eq
  · intro hc
    rw [isCancelled_congr q hsettings]
    apply hmarks
    rw [← h.cancelled_eq, ← hc]
    show t.cancelled = (if j = i then t.step p.makeNow .produce else t).cancelled
    split
    · exact (Trace.step_produce_frame p.makeNow t).2.2.symm
    · rfl

theorem Mirrors.withRun_eq {β : Type} (h : Mirrors p i t)
    (f : Bool → Run α → Option β × Run α) :
    p.withRun i f = ((f t.cancelled t.run).1,
      { p with runs := p.runs.set i (f t.cancelled t.run).2 }) := by
  rw [withRun, h.run_eq, h.cancelled_eq]

/-- What the run's own consumer does continues the history. -/
theorem Mirrors.set (h : Mirrors p i t) {u : Trace α} (hc : u.cancelled = t.cancelled)
    (hs : u.run.settings = t.run.settings) :
    Mirrors { p with runs := p.runs.set i u.run } i u := by
  have hlt : i < p.runs.length := (List.getElem?_eq_some_iff.mp h.run_eq).1
  constructor
  · exact List.getElem?_set_self hlt
  · rw [hc, h.cancelled_eq]
    exact (isCancelled_congr p hs).symm

/-! ### Letting the producers go on -/

theorem work_lt_of_stepRun (h : p.stepRun j = some q) : q.work < p.work := by
  obtain ⟨r, m, hr, hm, hruns, -⟩ := exists_of_stepRun h
  rw [work, work, hruns]
  exact sumOf_set_lt hr hm.work_lt

theorem exists_of_stepAny (h : p.stepAny = some q) : ∃ j, p.stepRun j = some q := by
  obtain ⟨j, -, hj⟩ := List.exists_of_findSome?_eq_some h
  exact ⟨j, hj⟩

/-- With enough steps the producers come to rest. -/
theorem stepAny_settleWithin {n : Nat} (h : p.work ≤ n) : (settleWithin n p).stepAny = none := by
  induction n generalizing p with
  | zero =>
    rw [settleWithin]
    cases hq : p.stepAny with
    | none => rfl
    | some q =>
      obtain ⟨j, hj⟩ := exists_of_stepAny hq
      have := work_lt_of_stepRun hj
      omega
  | succ n ih =>
    unfold settleWithin
    split
    next q hq =>
      obtain ⟨j, hj⟩ := exists_of_stepAny hq
      have := work_lt_of_stepRun hj
      exact ih (by omega)
    next hq => exact hq

/-- A producer that has come to rest has ended or is held up. -/
theorem Mirrors.of_stepAny_eq_none (h : Mirrors p i t) (hnone : p.stepAny = none) :
    t.run.isFinished = true ∨ t.run.IsHeldUp t.cancelled := by
  have hlt : i < p.runs.length := (List.getElem?_eq_some_iff.mp h.run_eq).1
  have hstep : p.stepRun i = none :=
    List.findSome?_eq_none_iff.mp hnone i (List.mem_range.mpr hlt)
  rw [h.cancelled_eq]
  exact (stepRun_eq_none_iff h.run_eq).mp hstep

end Processor

end EmojiCatalog
