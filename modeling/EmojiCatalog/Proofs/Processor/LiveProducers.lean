import EmojiCatalog.Proofs.Processor.Isolation
import EmojiCatalog.Proofs.Processor.Statistics
import EmojiCatalog.Proofs.Run.Backpressure
/-!
Producers that are still at work when all is quiet.

A producer must not outlive the use of its run, nor end while it could still send.  In every history
of a processor, a producer at rest is at work exactly if its token is not cancelled, its consumer
listens, and more entries remain than its consumer and the buffer have taken.  So once all producers
are at rest the number of live tasks can be read off the runs, and it is zero when each run has been
used up, cancelled or dropped.

What is known about one run after every history of its own (`Sound`, `AheadWithin`, `DoneIsDry`) is
carried over to the runs of a processor through the histories of `Processor.Follows`.  The producers
do come to rest: from every state some steps of theirs alone lead there (`exists_steps_atRest`).
-/

namespace EmojiCatalog

open Run (Trace Act Moves Sound AheadWithin Reply)

variable {α : Type}

/-! ### The end that a consumer has seen -/

namespace Run

variable {t : Trace α}

/-- A consumer that has seen the end gets no more records. -/
def DoneIsDry (t : Trace α) : Prop := t.run.isDone = true → t.run.isDrying = true

theorem isDrying_iff {r : Run α} :
    r.isDrying = true ↔ r.isFinished = true ∨ r.receiver ≠ .listening := by
  rw [isDrying, Bool.or_eq_true, bne_iff_ne]

theorem DoneIsDry.start (c : Catalog) (config : Config) (token : Token) :
    DoneIsDry (Trace.start (α := α) c config token) :=
  fun h => nomatch h

theorem DoneIsDry.moved {f : Entry → α × Stamp} {m : Move α} (h : DoneIsDry t)
    (hm : Moves t.cancelled f t.run m) : DoneIsDry (t.moved m) := by
  intro hd
  have hdown := hm.downstream_eq
  have hr : m.run.receiver = t.run.receiver := congrArg (·.1) hdown
  have hdone : m.run.isDone = t.run.isDone := congrArg (·.2.2.1) hdown
  -- a producer that moves had not ended, so it is the consumer that does not listen
  obtain hf | hl := isDrying_iff.mp (h (hdone ▸ hd))
  · rw [hm.not_isFinished] at hf
    cases hf
  · exact isDrying_iff.mpr (.inr (hr ▸ hl))

/-- A request ends the run for its consumer only when no record can follow. -/
theorem Serves.isDone_eq {cancelled : Bool} {r : Run α} {q : Request} {p : Reply α × Run α}
    (h : Serves cancelled r q p) :
    p.2.isDone = r.isDone ∨ r.isFinished = true ∨ p.2.receiver ≠ .listening := by
  cases h with
  | ask h =>
    cases h with
    | cut _ _ => exact .inr (.inr (receiver_close_ne_listening r))
    | dry _ _ hd => exact .inr (isDrying_iff.mp hd)
    | _ => exact .inl rfl
  | close =>
    left
    show r.close.isDone = r.isDone
    rw [close_eq]
  | _ => exact .inl rfl

theorem DoneIsDry.served (h : DoneIsDry t) (q : Request) :
    DoneIsDry (t.served (t.run.serve t.cancelled q)) := by
  intro hd
  have hserves := serves_serve t.cancelled t.run q
  have hf := isFinished_serve t.cancelled t.run q
  obtain hdone | hf' | hl := hserves.isDone_eq
  · obtain hf' | hl := isDrying_iff.mp (h (hdone ▸ hd))
    · exact isDrying_iff.mpr (.inl (hf.trans hf'))
    · exact isDrying_iff.mpr (.inr (mt hserves.listening hl))
  · exact isDrying_iff.mpr (.inl (hf.trans hf'))
  · exact isDrying_iff.mpr (.inr hl)

theorem DoneIsDry.after {make : Nat → Entry → α × Stamp} (h : DoneIsDry t) (acts : List Act) :
    DoneIsDry (t.after make acts) :=
  Trace.after_of_step (fun _ _ _ h =>
    Trace.step_cases h (fun _ hm => h.moved hm) (fun q _ => h.served q) h) h

/-- A producer at rest has ended if its token is cancelled, or its consumer does not listen or has
seen the end. -/
theorem isFinished_of_over (h : DoneIsDry t)
    (hrest : t.run.isFinished = true ∨ t.run.IsHeldUp t.cancelled)
    (hover : t.cancelled = true ∨ t.run.receiver ≠ .listening ∨ t.run.isDone = true) :
    t.run.isFinished = true := by
  obtain hf | ⟨hc, hl, -⟩ := hrest
  · exact hf
  · obtain hc' | hl' | hd := hover
    · rw [hc] at hc'
      cases hc'
    · exact absurd hl hl'
    · obtain hf | hl' := isDrying_iff.mp (h hd)
      · exact hf
      · exact absurd hl hl'

end Run

/-! ### From histories of a run to runs of a processor -/

variable {c : Catalog} {config : Config} {p q : Processor α} {ts : List (Trace α)} {i j : Nat}
variable {r : Run α}

/-- Every run of a processor stands where a history of its own leads. -/
theorem Processor.Follows.exists_trace (h : p.Follows c config ts) (hr : r ∈ p.runs) :
    ∃ t : Trace α, t.run = r ∧ t.cancelled = p.isCancelled r ∧ Run.DoneIsDry t ∧
      ∃ make, Sound make config.producerName c.entries t ∧ AheadWithin config.capacity t := by
  rw [h.runs_eq] at hr
  obtain ⟨t, ht, rfl⟩ := List.mem_map.mp hr
  obtain ⟨token, make, acts, -, -, hleads⟩ := h.reached t ht
  have hstart := Sound.start make c config token
  refine ⟨t, rfl, h.marks_eq t ht, ?_, make, ?_, ?_⟩
  · rw [hleads]
    exact (Run.DoneIsDry.start c config token).after acts
  · rw [hleads]
    exact hstart.after acts
  · rw [hleads]
    exact (AheadWithin.start c config token).after hstart acts

namespace Processor

/-- A run at rest, in a processor whose runs have histories. -/
theorem Follows.unfinished_iff (h : p.Follows c config ts) (hr : r ∈ p.runs)
    (hrest : r.isFinished = true ∨ r.IsHeldUp (p.isCancelled r)) :
    r.isFinished = false ↔
      p.isCancelled r = false ∧ r.receiver = .listening ∧
        r.taken + config.capacity < c.entries.length := by
  obtain ⟨t, rfl, hmark, -, make, hsound, hahead⟩ := h.exists_trace hr
  rw [← hmark] at hrest ⊢
  exact hsound.unfinished_iff hahead hrest

theorem Follows.counted_at_rest (h : p.Follows c config ts) (hr : r ∈ p.runs)
    (hrest : r.isFinished = true ∨ r.IsHeldUp (p.isCancelled r))
    (hc : p.isCancelled r = false) (hl : r.receiver = .listening) :
    r.counted = min c.entries.length (r.taken + config.capacity + 1) := by
  obtain ⟨t, rfl, hmark, -, make, hsound, hahead⟩ := h.exists_trace hr
  rw [← hmark] at hrest hc
  exact hsound.counted_at_rest hahead hrest hc hl

/-- The producers that have not ended are those of the runs that go on. -/
theorem Follows.liveProducers_eq (h : p.Follows c config ts) (hrest : p.AtRest) :
    p.liveProducers = p.runs.countP fun r => decide (p.isCancelled r = false ∧
      r.receiver = .listening ∧ r.taken + config.capacity < c.entries.length) := by
  apply List.countP_congr
  intro r hr
  rw [Bool.not_eq_true', decide_eq_true_iff]
  exact h.unfinished_iff hr (hrest r hr)

theorem Follows.liveProducers_eq_zero (h : p.Follows c config ts) (hrest : p.AtRest)
    (hover : ∀ r ∈ p.runs,
      p.isCancelled r = true ∨ r.receiver ≠ .listening ∨ r.isDone = true) :
    p.liveProducers = 0 := by
  apply List.countP_eq_zero.mpr
  intro r hr
  obtain ⟨t, rfl, hmark, hdone, -⟩ := h.exists_trace hr
  have hrest := hrest t.run hr
  have hover := hover t.run hr
  rw [← hmark] at hrest hover
  rw [Run.isFinished_of_over hdone hrest hover]
  exact nofun

end Processor

/-! ### The records that a run has delivered -/

/-- The number of records taken from a run, which is zero before it is started. -/
def Processor.takenFrom (p : Processor α) (i : Nat) : Nat :=
  (p.runs[i]?.map (·.taken)).getD 0

namespace Chronicle

variable {ch : Chronicle α} {deeds : List Deed}

theorem takenFrom_set {r' : Run α} (hr : p.runs[j]? = some r) (hq : q.runs = p.runs.set j r')
    {n : Nat} (ht : r'.taken = r.taken + n) :
    q.takenFrom i = p.takenFrom i + if j = i then n else 0 := by
  have hlt : j < p.runs.length := (List.getElem?_eq_some_iff.mp hr).1
  unfold Processor.takenFrom
  rw [hq]
  split
  next hji =>
    subst hji
    rw [List.getElem?_set_self hlt, hr]
    exact ht
  next hji => rw [List.getElem?_set_ne hji, Nat.add_zero]

/-- A deed takes from a run the records in the reply that the run gives to it. -/
theorem takenFrom_act (ch : Chronicle α) (i : Nat) (d : Deed) :
    (ch.act d).processor.takenFrom i
      = ch.processor.takenFrom i + ((ch.reply i d).flatMap (·.records)).length := by
  cases d with
  | start parent =>
    show Option.getD (Option.map _ ((ch.processor.runs ++ [_])[i]?)) 0
      = Option.getD (Option.map _ ch.processor.runs[i]?) 0 + 0
    obtain hlt | rfl | hgt := Nat.lt_trichotomy i ch.processor.runs.length
    · rw [List.getElem?_append_left hlt, Nat.add_zero]
    · -- nothing has been taken yet from the new run
      rw [List.getElem?_concat_length, List.getElem?_eq_none (Nat.le_refl _)]
      rfl
    · rw [List.getElem?_eq_none (Nat.le_of_lt hgt), List.getElem?_eq_none]
      · rfl
      · rw [List.length_append]
        exact hgt
  | step j =>
    rw [act]
    cases hq : ch.processor.stepRun j with
    | none => rfl
    | some q =>
      obtain ⟨r, m, hr, hm, hruns, -⟩ := Processor.exists_of_stepRun hq
      have ht : m.run.taken = r.taken := congrArg (·.2.2.2) hm.downstream_eq
      show q.takenFrom i = ch.processor.takenFrom i + 0
      rw [takenFrom_set hr hruns (n := 0) ht, ite_self]
  | serve j q =>
    rw [act, reply]
    cases hr : ch.processor.runs[j]? with
    | none =>
      have hserve : ch.processor.serve j q = (.nothing, ch.processor) := by
        rw [Processor.serve, Processor.withRun, hr]
        rfl
      rw [hserve]
      split <;> rfl
    | some r =>
      have hserve : ch.processor.serve j q = ((r.serve (ch.processor.isCancelled r) q).1,
          { ch.processor with
            runs := ch.processor.runs.set j (r.serve (ch.processor.isCancelled r) q).2 }) := by
        rw [Processor.serve, Processor.withRun, hr]
        rfl
      have htaken := (Run.serves_serve (ch.processor.isCancelled r) r q).flow.taken_eq
      rw [hserve, takenFrom_set hr rfl htaken]
      split
      · rw [List.flatMap_singleton]
      · rfl
  | readStats now =>
    show (if ch.processor.metrics.cancelsRoot then ch.processor.cancel Tokens.root
      else ch.processor).takenFrom i = _
    split <;> rfl
  | _ => rfl

theorem takenFrom_after (ch : Chronicle α) (i : Nat) (deeds : List Deed) :
    (ch.after deeds).processor.takenFrom i
      = ch.processor.takenFrom i + ((ch.replies i deeds).flatMap (·.records)).length := by
  induction deeds generalizing ch with
  | nil => rfl
  | cons d deeds ih =>
    rw [after_cons, ih, takenFrom_act, replies, List.flatMap_append, List.length_append,
      Nat.add_assoc]

/-! ### Coming to rest -/

/-- From every state some steps of the producers lead to one in which all are at rest. -/
theorem exists_steps_atRest (ch : Chronicle α) :
    ∃ steps, (∀ d ∈ steps, d.isStep = true) ∧ (ch.after steps).processor.AtRest := by
  induction hwork : ch.processor.work using Nat.strongRecOn generalizing ch with
  | ind n ih =>
    cases hq : ch.processor.stepAny with
    | none => exact ⟨[], nofun, Processor.atRest_iff_stepAny.mpr hq⟩
    | some q =>
      obtain ⟨j, hj⟩ := Processor.exists_of_stepAny hq
      have hact : ch.act (.step j) = { ch with processor := q } := by
        rw [act, hj]
        rfl
      have hlt : q.work < n := hwork ▸ Processor.work_lt_of_stepRun hj
      obtain ⟨steps, hsteps, hrest⟩ := ih q.work hlt { ch with processor := q } rfl
      refine ⟨.step j :: steps, ?_, ?_⟩
      · exact List.forall_mem_cons.mpr ⟨rfl, hsteps⟩
      · rw [after_cons, hact]
        exact hrest

end Chronicle

/-- **No producer is leaked and none stops before its time**, in every history of a processor.

* A producer that cannot make a step is at work exactly if its token is not cancelled, its receiver
  is neither closed nor dropped, and more entries remain than were taken and fit into the buffer.
  If neither has happened to token or receiver, it has counted one entry more than that, or all.
* The live tasks are the producers at work, beside those tasks that are none of the processor's.
* Once all producers are at rest, those at work belong to the runs that are not cancelled, open, and
  have entries left in this sense; and there are none when every run was cancelled, closed or
  dropped, or its consumer has seen the end.
* The producers come to rest by themselves. -/
theorem live_tasks_at_rest (c : Catalog) (config : Config) (payload : Payload α)
    (metrics : Metrics) (hlive : metrics.liveTasks = .producers) (deeds : List Deed)
    (now : Instant) :
    let start := Chronicle.start c config payload metrics
    let ch := start.after deeds
    let p := ch.processor
    let n := c.entries.length
    (∀ i r, p.runs[i]? = some r →
      r.taken = ((start.replies i deeds).flatMap (·.records)).length ∧
      (p.stepRun i = none →
        (r.isFinished = false ↔
          p.isCancelled r = false ∧ r.receiver = .listening ∧ r.taken + config.capacity < n) ∧
        (p.isCancelled r = false → r.receiver = .listening →
          r.counted = min n (r.taken + config.capacity + 1)))) ∧
    (p.stats now).1.liveTasks = some (metrics.otherTasks + p.liveProducers) ∧
    (p.AtRest →
      (p.liveProducers = p.runs.countP fun r => decide (p.isCancelled r = false ∧
        r.receiver = .listening ∧ r.taken + config.capacity < n)) ∧
      ((∀ r ∈ p.runs, p.isCancelled r = true ∨ r.receiver ≠ .listening ∨ r.isDone = true) →
        p.liveProducers = 0)) ∧
    ∃ steps, (∀ d ∈ steps, d.isStep = true) ∧ (ch.after steps).processor.AtRest := by
  intro start ch p n
  obtain ⟨ts, haccounts⟩ := (Chronicle.Accounts.start c config payload metrics).after deeds
  have hfollows : p.Follows c config ts := haccounts.follows
  have hmetrics : p.metrics = metrics := congrArg (·.2.2.2) (start.settings_after deeds)
  refine ⟨?_, ?_, ?_, ch.exists_steps_atRest⟩
  · intro i r hr
    have hmem : r ∈ p.runs := List.mem_of_getElem? hr
    constructor
    · have htaken := start.takenFrom_after i deeds
      rw [show (start.after deeds).processor.takenFrom i = r.taken by
        rw [Processor.takenFrom, hr]; rfl] at htaken
      exact htaken.trans (Nat.zero_add _)
    · intro hstep
      have hrest := (Processor.stepRun_eq_none_iff hr).mp hstep
      exact ⟨hfollows.unfinished_iff hmem hrest, hfollows.counted_at_rest hmem hrest⟩
  · simp only [Processor.stats, hmetrics, hlive]
  · intro hrest
    exact ⟨hfollows.liveProducers_eq hrest, hfollows.liveProducers_eq_zero hrest⟩

/-- Two runs, of which one is held up with its second record and the other is dropped. -/
def oneDroppedDeeds : List Deed :=
  [.start Tokens.root, .start Tokens.root] ++ List.replicate 9 (Deed.step 0)
    ++ List.replicate 9 (Deed.step 1) ++ [.serve 1 .tryReceive, .serve 1 .drop]
    ++ List.replicate 9 (Deed.step 1)

theorem live_tasks_at_rest_oneDropped :
    let metrics : Metrics := { liveTasks := .producers }
    let p := ((Chronicle.start Catalog.twoFaces { batchSize := 0 } .subcategory metrics).after
      oneDroppedDeeds).processor
    metrics.liveTasks = .producers ∧ p.AtRest ∧ p.runs.map (·.isFinished) = [false, true] ∧
      p.runs.map (·.counted) = [2, 2] ∧ (p.stats .epoch).1.liveTasks = some 1 := by
  obtain ⟨-, hstats, hatRest, -⟩ := live_tasks_at_rest Catalog.twoFaces { batchSize := 0 }
    .subcategory { liveTasks := .producers } rfl oneDroppedDeeds .epoch
  obtain ⟨hcount, -⟩ := hatRest (by decide)
  refine ⟨rfl, by decide, by decide, by decide, ?_⟩
  rw [hstats, hcount]
  decide

end EmojiCatalog
