import EmojiCatalog.Proofs.Pool.Outcomes
import Mathlib.Data.List.Forall2
/-!
Workers after a cancellation.

A worker looks at the token before each query and at no other time, so a cancellation reaches it at
its next check.  If it is past a check by then, it brings this one query to its end
(`Worker.pending`) and begins no other.  `Worker.WindsDown` says this of two states of a worker with
the token cancelled in between.  Every move keeps it and so do whole histories, with at most three
moves of the worker left to make (`Pool.Sound.windsDown_after`).

So the tally of a worker that ends is settled at the moment of the cancellation, but for the answer
to the query at hand.  Only a plan that breaks down at this query makes a difference, because the
worker is lost then (`cancellation_stops_workers`).
-/

namespace EmojiCatalog

variable {c : Catalog} {plan : Plan} {workerCount queries : Nat} {cancelled : Bool} {id : Nat}

/-- No count of the first tally is above that of the second. -/
structure WorkerOutcome.IsWithin (o o' : WorkerOutcome) : Prop where
  queriesRun_le : o.queriesRun ≤ o'.queriesRun
  successCount_le : o.successCount ≤ o'.successCount
  errorCount_le : o.errorCount ≤ o'.errorCount

namespace Worker

variable {w w' : Worker} {m : Move}

/-! ### The query at hand -/

/-- The number of queries that a worker has begun and not counted yet. -/
def pending (w : Worker) : Nat :=
  match w.stage with
  | .asking | .searching _ => 1
  | .checking | .finished | .lost => 0

theorem pending_le_one (w : Worker) : w.pending ≤ 1 := by
  unfold pending
  split <;> omega

theorem pending_eq_zero_of_isFinished (h : w.isFinished = true) : w.pending = 0 := by
  obtain hs | hs := isFinished_iff.mp h <;> simp only [pending, hs]

/-- `WindsDown plan id w w'`: while the worker `w` became `w'` it has begun no query. -/
structure WindsDown (plan : Plan) (id : Nat) (w w' : Worker) : Prop where
  index_le : w.index ≤ w'.index
  index_add_pending_le : w'.index + w'.pending ≤ w.index + w.pending
  /-- The worker still has the query at hand, or has counted it, unless it was lost. -/
  index_add_pending_eq : w'.stage ≠ .lost → w'.index + w'.pending = w.index + w.pending
  /-- The plan is asked for a query that the worker had at hand from the start. -/
  eq_of_asking : w'.stage = .asking → w' = w
  lost : w'.stage = .lost → w.stage = .lost ∨ w.stage = .asking ∧ plan.query id w.index = none

theorem WindsDown.refl (w : Worker) : WindsDown plan id w w where
  index_le := Nat.le_refl _
  index_add_pending_le := Nat.le_refl _
  index_add_pending_eq _ := rfl
  eq_of_asking _ := rfl
  lost := .inl

/-- A worker that reaches a later stage of the query at hand, or ends. -/
theorem WindsDown.of_eq {w'' : Worker} (h : WindsDown plan id w w') (hw' : w'.stage ≠ .lost)
    (hle : w'.index ≤ w''.index) (heq : w''.index + w''.pending = w'.index + w'.pending)
    (hasking : w''.stage ≠ .asking) (hlost : w''.stage ≠ .lost) : WindsDown plan id w w'' where
  index_le := Nat.le_trans h.index_le hle
  index_add_pending_le := heq ▸ h.index_add_pending_le
  index_add_pending_eq _ := heq.trans (h.index_add_pending_eq hw')
  eq_of_asking hs := absurd hs hasking
  lost hs := absurd hs hlost

/-- With the token cancelled every move winds a worker down. -/
theorem WindsDown.moved (h : WindsDown plan id w w') (hid : w'.outcome.workerId = id)
    (hm : w'.Moves c plan queries true m) : WindsDown plan id w m.worker := by
  cases hm with
  | finish hs _ | stop hs _ _ =>
    have hpending : w'.pending = 0 := by simp only [pending, hs]
    refine h.of_eq (by simp [hs]) (Nat.le_refl _) ?_ Stage.noConfusion Stage.noConfusion
    rw [hpending]
    rfl
  | check _ _ hc => cases hc
  | ask hs _ =>
    have hpending : w'.pending = 1 := by simp only [pending, hs]
    refine h.of_eq (by simp [hs]) (Nat.le_refl _) ?_ Stage.noConfusion Stage.noConfusion
    rw [hpending]
    rfl
  | lose hs hq =>
    -- the worker still asks for the query that it had at hand
    obtain rfl := h.eq_of_asking hs
    exact ⟨Nat.le_refl _, Nat.le_add_right _ _, fun hlost => absurd rfl hlost, Stage.noConfusion,
      fun _ => .inr ⟨hs, hid ▸ hq⟩⟩
  | answer hs _ | fail hs _ =>
    have hpending : w'.pending = 1 := by simp only [pending, hs]
    refine h.of_eq (by simp [hs]) (Nat.le_succ _) ?_ Stage.noConfusion Stage.noConfusion
    rw [hpending]
    rfl

/-! ### Steps to the end -/

/-- A bound on the number of steps that a worker makes once the token is cancelled. -/
def stepsLeft (w : Worker) : Nat :=
  match w.stage with
  | .asking => 3
  | .searching _ => 2
  | .checking => 1
  | .finished | .lost => 0

theorem stepsLeft_le_three (w : Worker) : w.stepsLeft ≤ 3 := by
  unfold stepsLeft
  split <;> omega

theorem stepsLeft_eq_zero_iff : w.stepsLeft = 0 ↔ w.isFinished = true := by
  unfold stepsLeft isFinished
  cases w.stage <;> simp

theorem stepsLeft_lt (hm : w.Moves c plan queries true m) :
    m.worker.stepsLeft < w.stepsLeft := by
  cases hm with
  | check _ _ hc => cases hc
  | finish hs _ | stop hs _ _ | ask hs _ | lose hs _ | answer hs _ | fail hs _ =>
    simp only [stepsLeft, hs]
    omega

/-! ### Tallies -/

/-- The tally of a worker that is further on has the counts of the earlier one, and more. -/
theorem Sound.isWithin {cancelled' : Bool} (h : Sound c plan queries cancelled id w)
    (h' : Sound c plan queries cancelled' id w') (hle : w.index ≤ w'.index) :
    w.outcome.IsWithin w'.outcome := by
  have hcounts := (Plan.tallyAlone_eq_some_iff.mp h.tally_eq).2
  have hcounts' := (Plan.tallyAlone_eq_some_iff.mp h'.tally_eq).2
  have hrange : (List.range w.index).Sublist (List.range w'.index) := List.range_sublist.mpr hle
  constructor
  case queriesRun_le => rwa [h.queriesRun_eq, h'.queriesRun_eq]
  case successCount_le =>
    have hcount := congrArg WorkerOutcome.successCount hcounts
    have hcount' := congrArg WorkerOutcome.successCount hcounts'
    exact hcount ▸ hcount' ▸ hrange.countP_le
  case errorCount_le =>
    have hcount := congrArg WorkerOutcome.errorCount hcounts
    have hcount' := congrArg WorkerOutcome.errorCount hcounts'
    exact hcount ▸ hcount' ▸ hrange.countP_le

end Worker

/-! ### Lists in pairs -/

theorem sumOf_le_of_forall₂ {α β : Type} {f : α → Nat} {g : β → Nat} {xs : List α} {ys : List β}
    (h : List.Forall₂ (fun x y => f x ≤ g y) xs ys) : sumOf f xs ≤ sumOf g ys := by
  induction h with
  | nil => exact Nat.le_refl _
  | cons hle _ ih => exact Nat.add_le_add hle ih

theorem sumOf_eq_of_forall₂ {α β : Type} {f : α → Nat} {g : β → Nat} {xs : List α} {ys : List β}
    (h : List.Forall₂ (fun x y => f x = g y) xs ys) : sumOf f xs = sumOf g ys :=
  Nat.le_antisymm (sumOf_le_of_forall₂ (h.imp fun _ _ => Nat.le_of_eq))
    (sumOf_le_of_forall₂ (h.flip.imp fun _ _ heq => Nat.le_of_eq heq.symm))

/-- Two lists that are filtered alike stay in pairs. -/
theorem forall₂_filter_map {α β γ : Type} {R : α → γ → Prop} {keep : α → Bool} {keep' : β → Bool}
    {f : β → γ} {xs : List α} {ys : List β}
    (h : List.Forall₂ (fun x y => keep x = keep' y ∧ (keep' y = true → R x (f y))) xs ys) :
    List.Forall₂ R (xs.filter keep) ((ys.filter keep').map f) := by
  induction h with
  | nil => exact .nil
  | @cons x y xs ys hxy _ ih =>
    rw [List.filter_cons, List.filter_cons, hxy.1]
    cases hkeep : keep' y with
    | false => exact ih
    | true => exact .cons (hxy.2 hkeep) ih

/-! ### Histories after the cancellation -/

namespace Pool

variable {p : Pool} {i : Nat} {w w' : Worker} {acts : List Act}

theorem cancelled_act (hc : p.cancelled = true) (a : Act) :
    (p.act c plan a).cancelled = true := by
  refine act_cases (P := fun p' => p'.cancelled = true) hc ?_ rfl
  intro i w m _ _ _
  show (p.cancelled || m.cancels) = true
  rw [hc, Bool.true_or]

theorem cancelled_after (hc : p.cancelled = true) (acts : List Act) :
    (p.after c plan acts).cancelled = true :=
  after_of_act (P := fun p' => p'.cancelled = true) (fun _ a h => cancelled_act h a) hc

/-- What a worker that winds down has become after some acts, and how many steps it has left. -/
theorem Sound.windsDown_after (h : Sound c plan workerCount queries p) (hc : p.cancelled = true)
    (hw' : p.workers[i]? = some w') (hwinds : Worker.WindsDown plan i w w') (acts : List Act) :
    ∃ w'', (p.after c plan acts).workers[i]? = some w'' ∧ Worker.WindsDown plan i w w'' ∧
      w''.stepsLeft ≤ w'.stepsLeft - acts.count (.step i) := by
  induction acts generalizing p w' with
  | nil => exact ⟨w', hw', hwinds, Nat.le_refl _⟩
  | cons a acts ih =>
    obtain ⟨hsame, hended⟩ | ⟨rfl, m, hm, hmoved⟩ := worker_act_cases c plan hw' a
    · obtain ⟨w'', hw'', hwinds', hsteps⟩ := ih (h.act a) (cancelled_act hc a) hsame hwinds
      refine ⟨w'', hw'', hwinds', ?_⟩
      by_cases ha : a = .step i
      · have hzero := Worker.stepsLeft_eq_zero_iff.mpr (hended ha)
        omega
      · rwa [List.count_cons_of_ne ha]
    · rw [hc] at hm
      have hwinds' := hwinds.moved (h.worker i w' hw').workerId_eq hm
      obtain ⟨w'', hw'', hwinds'', hsteps⟩ :=
        ih (h.act (.step i)) (cancelled_act hc _) hmoved hwinds'
      refine ⟨w'', hw'', hwinds'', ?_⟩
      have hlt := Worker.stepsLeft_lt hm
      rw [List.count_cons_self]
      omega

/-- A worker that ends with its tally has counted the query at hand. -/
theorem Sound.kept_of_windsDown (h : Sound c plan workerCount queries p)
    (hw : p.workers[i]? = some w) {p' : Pool} (h' : Sound c plan workerCount queries p')
    (hw' : p'.workers[i]? = some w') (hwinds : Worker.WindsDown plan i w w')
    (hf : w'.isFinished = true) (hs : w'.stage ≠ .lost) :
    w'.outcome.queriesRun = w.outcome.queriesRun + w.pending ∧
      Worker.Kept c plan queries p'.cancelled i w'.outcome := by
  constructor
  · have heq := hwinds.index_add_pending_eq hs
    rw [(h.worker i w hw).queriesRun_eq, (h'.worker i w' hw').queriesRun_eq, ← heq,
      Worker.pending_eq_zero_of_isFinished hf, Nat.add_zero]
  · obtain ⟨hlost, -⟩ | ⟨-, hkept⟩ := (h'.worker i w' hw').lost_or_kept hf
    · exact absurd hlost hs
    · exact hkept

theorem mem_outcome_workers (hw : p.workers[i]? = some w) (hs : w.stage ≠ .lost) :
    w.outcome ∈ p.outcome.workers := by
  have hmem : w ∈ p.workers.filter fun w => w.stage != .lost :=
    List.mem_filter.mpr ⟨List.mem_of_getElem? hw, bne_iff_ne.mpr hs⟩
  exact (sortTallies_perm _).mem_iff.mpr (List.mem_map_of_mem hmem)

/-- Asking for a query that cancels the token leaves the worker with this query at hand. -/
theorem advance_of_cancels (hw : p.workers[i]? = some w) (hid : w.outcome.workerId = i)
    (hs : w.stage = .asking) (hq : (plan.query i w.index).isSome = true)
    (hcancels : plan.cancels i w.index = true) :
    (p.advance c plan i).cancelled = true ∧ ∃ q,
      (p.advance c plan i).workers[i]? = some { w with stage := .searching q } := by
  obtain ⟨x, m, hx, hm, hadvance⟩ | ⟨-, hended⟩ := advance_cases c plan p i
  · obtain rfl : w = x := Option.some.inj (hw.symm.trans hx)
    have hlt : i < p.workers.length := (List.getElem?_eq_some_iff.mp hw).1
    rw [hadvance]
    cases hm with
    | ask _ _ =>
      refine ⟨?_, _, List.getElem?_set_self hlt⟩
      show (p.cancelled || plan.cancels w.outcome.workerId w.index) = true
      rw [hid, hcancels, Bool.or_true]
    | lose _ hnone =>
      rw [← hid, hnone] at hq
      cases hq
    | finish hs' _ | stop hs' _ _ | check hs' _ _ | answer hs' _ | fail hs' _ =>
      cases hs.symm.trans hs'
  · obtain hs' | hs' := Worker.isFinished_iff.mp (hended w hw) <;> cases hs.symm.trans hs'

/-! ### Totals -/

/-- The workers of the pool that a later pool has not lost. -/
def keptBy (p p' : Pool) : List Worker :=
  p.workers.filter fun w => !p'.isLost w.outcome.workerId

/-- The tallies of a later pool are those of the workers that it has not lost, in order. -/
theorem Sound.forall₂_keptBy (h : Sound c plan workerCount queries p) {p' : Pool}
    (h' : Sound c plan workerCount queries p') {R : Worker → WorkerOutcome → Prop}
    (hR : ∀ (i : Nat) (w w' : Worker), p.workers[i]? = some w → p'.workers[i]? = some w' →
      w'.stage ≠ .lost → R w w'.outcome) : List.Forall₂ R (p.keptBy p') p'.outcome.workers := by
  rw [h'.workers_outcome]
  refine forall₂_filter_map (List.forall₂_iff_get.mpr ⟨?_, fun i hi hi' => ?_⟩)
  · exact h.length_eq.trans h'.length_eq.symm
  · have hw : p.workers[i]? = some (p.workers.get ⟨i, hi⟩) := List.getElem?_eq_getElem hi
    have hw' : p'.workers[i]? = some (p'.workers.get ⟨i, hi'⟩) := List.getElem?_eq_getElem hi'
    refine ⟨?_, fun hs => hR i _ _ hw hw' (bne_iff_ne.mp hs)⟩
    rw [(h.worker i _ hw).workerId_eq, isLost, hw']
    rfl

/-- What a worker had counted at the cancellation, with the query at hand, is what it has counted in
the end, unless it was lost. -/
theorem Sound.forall₂_isWithin (h : Sound c plan workerCount queries p) (hc : p.cancelled = true)
    (hf : (p.after c plan acts).isFinished = true) :
    List.Forall₂
      (fun w x => w.outcome.queriesRun + w.pending = x.queriesRun ∧ w.outcome.IsWithin x)
      (p.keptBy (p.after c plan acts)) (p.after c plan acts).outcome.workers := by
  have h' := h.after acts
  refine h.forall₂_keptBy h' fun i w w' hw hw' hs => ?_
  obtain ⟨x, hx, hwinds, -⟩ := h.windsDown_after hc hw (.refl w) acts
  obtain rfl : w' = x := Option.some.inj (hw'.symm.trans hx)
  have hended := List.all_eq_true.mp hf w' (List.mem_of_getElem? hw')
  exact ⟨(h.kept_of_windsDown hw h' hw' hwinds hended hs).1.symm,
    (h.worker i w hw).isWithin (h'.worker i w' hw') hwinds.index_le⟩

end Pool

/-! ### The result -/

/-- **A cancellation stops every worker within one query**, whenever it comes and wherever it comes
from, in every order in which the workers move.

Let the token be cancelled at some moment, and let the pool go on from there.

* The token stays cancelled.  No worker loses a count, and it counts at most the query at hand,
  whose check it had passed: one with no query at hand counts no more.
* A worker ends with its next three steps.  It is lost only if it was lost before, or was about to
  ask for a query at which its plan breaks down.
* A worker that ends with its tally has counted the query at hand, has the tally that it would have
  alone after as many queries, is marked as stopped exactly if it has queries left, and is listed.
* The totals are made of what the listed workers had counted at that moment, and of the queries that
  they had at hand.

If asking for a query cancels the token, then the worker that asks reports this query and all before
it, and no other. -/
theorem cancellation_stops_workers (c : Catalog) (plan : Plan) (workerCount queries : Nat)
    (cancelled : Bool) (acts : List Pool.Act) :
    let p := (Pool.start workerCount queries cancelled).after c plan acts
    (p.cancelled = true → ∀ more,
      let p' := p.after c plan more
      p'.cancelled = true ∧
      (∀ (i : Nat) (w : Worker), p.workers[i]? = some w →
        ∃ w' : Worker, p'.workers[i]? = some w' ∧
          w.outcome.IsWithin w'.outcome ∧
          w'.outcome.queriesRun ≤ w.outcome.queriesRun + w.pending ∧ w.pending ≤ 1 ∧
          (3 ≤ more.count (.step i) → w'.isFinished = true) ∧
          (w'.stage = .lost →
            w.stage = .lost ∨ w.stage = .asking ∧ plan.query i w.index = none) ∧
          (w'.isFinished = true → w'.stage ≠ .lost →
            w'.outcome.queriesRun = w.outcome.queriesRun + w.pending ∧
            plan.tallyAlone c i w'.outcome.queriesRun
              = some { w'.outcome with cancelled := false } ∧
            (w'.outcome.cancelled = true ↔ w'.outcome.queriesRun < queries) ∧
            w'.outcome ∈ p'.outcome.workers)) ∧
      (p'.isFinished = true →
        p'.outcome.totalQueries
          = sumOf (fun w => w.outcome.queriesRun + w.pending) (p.keptBy p') ∧
        sumOf (·.outcome.successCount) (p.keptBy p') ≤ p'.outcome.totalSuccess ∧
        sumOf (·.outcome.errorCount) (p.keptBy p') ≤ p'.outcome.totalErrors)) ∧
    (∀ (i : Nat) (w : Worker), p.workers[i]? = some w → w.stage = .asking →
      (plan.query i w.index).isSome = true → plan.cancels i w.index = true →
      (p.advance c plan i).cancelled = true ∧ ∀ more,
        let p' := (p.advance c plan i).after c plan more
        p'.isFinished = true →
          ∃ x ∈ p'.outcome.workers, x.workerId = i ∧ x.queriesRun = w.index + 1 ∧
            (x.cancelled = true ↔ w.index + 1 < queries)) := by
  intro p
  have h : p.Sound c plan workerCount queries :=
    (Pool.Sound.start c plan workerCount queries cancelled).after acts
  constructor
  · intro hc more p'
    have h' : p'.Sound c plan workerCount queries := h.after more
    refine ⟨Pool.cancelled_after hc more, ?_, ?_⟩
    · intro i w hw
      obtain ⟨w', hw', hwinds, hsteps⟩ := h.windsDown_after hc hw (.refl w) more
      have hsound := h.worker i w hw
      have hsound' := h'.worker i w' hw'
      refine ⟨w', hw', hsound.isWithin hsound' hwinds.index_le, ?_, w.pending_le_one, ?_,
        hwinds.lost, ?_⟩
      · rw [hsound.queriesRun_eq, hsound'.queriesRun_eq]
        exact Nat.le_trans (Nat.le_add_right _ _) hwinds.index_add_pending_le
      · intro hcount
        have hthree := w.stepsLeft_le_three
        exact Worker.stepsLeft_eq_zero_iff.mp (by omega)
      · intro hf hs
        obtain ⟨hrun, hkept⟩ := h.kept_of_windsDown hw h' hw' hwinds hf hs
        exact ⟨hrun, hkept.tally_eq, hkept.cancelled_iff, Pool.mem_outcome_workers hw' hs⟩
    · intro hf
      have hkept := h.forall₂_isWithin hc hf
      exact ⟨(sumOf_eq_of_forall₂ (hkept.imp fun _ _ hx => hx.1)).symm,
        sumOf_le_of_forall₂ (hkept.imp fun _ _ hx => hx.2.successCount_le),
        sumOf_le_of_forall₂ (hkept.imp fun _ _ hx => hx.2.errorCount_le)⟩
  · intro i w hw hs hq hcancels
    have hid := (h.worker i w hw).workerId_eq
    obtain ⟨hc, q, hasked⟩ := Pool.advance_of_cancels (c := c) hw hid hs hq hcancels
    refine ⟨hc, ?_⟩
    intro more p' hf
    have hadvanced : (p.advance c plan i).Sound c plan workerCount queries := h.act (.step i)
    have h' : p'.Sound c plan workerCount queries := hadvanced.after more
    obtain ⟨w', hw', hwinds, -⟩ := hadvanced.windsDown_after hc hasked (.refl _) more
    -- the worker has its query already, so it is not lost at it
    have hs' : w'.stage ≠ .lost := by
      intro hlost
      obtain hlost | ⟨hasking, -⟩ := hwinds.lost hlost
      · cases hlost
      · cases hasking
    have hended := List.all_eq_true.mp hf w' (List.mem_of_getElem? hw')
    obtain ⟨hrun, hkept⟩ := hadvanced.kept_of_windsDown hasked h' hw' hwinds hended hs'
    have hnumber : w'.outcome.queriesRun = w.index + 1 :=
      hrun.trans (congrArg (· + 1) (h.worker i w hw).queriesRun_eq)
    exact ⟨w'.outcome, Pool.mem_outcome_workers hw' hs', hkept.workerId_eq, hnumber,
      hnumber ▸ hkept.cancelled_iff⟩

/-- A plan in which asking for the first query of worker 1 cancels the token. -/
def Plan.quitting : Plan where
  query _ _ := some { text := "" }
  cancels id n := id == 1 && n == 0

/-- Of three workers the first is about to ask for its last query when the second cancels the token,
and the third has not begun. -/
theorem cancellation_stops_workers_quitting :
    let acts : List Pool.Act := [.step 0, .step 0, .step 0, .step 0, .step 1]
    let p := (Pool.start 3 2 false).after (.ofCategories []) Plan.quitting (acts ++ [.step 1])
    let p' := p.after (.ofCategories []) Plan.quitting (Pool.turnsOf [2, 1, 0])
    p.cancelled = true ∧ p'.isFinished = true ∧ p'.outcome.totalQueries = 3 ∧
      (∃ w, p'.workers[0]? = some w ∧ w.outcome.queriesRun = 2 ∧ ¬w.outcome.cancelled = true) ∧
      (∃ w, p'.workers[2]? = some w ∧ w.outcome.queriesRun = 0 ∧ w.outcome.cancelled = true) ∧
      ∃ x ∈ p'.outcome.workers, x.workerId = 1 ∧ x.queriesRun = 1 ∧ x.cancelled = true := by
  intro acts p p'
  have hc : p.cancelled = true := by decide
  have hf : p'.isFinished = true := by decide
  obtain ⟨hcutoff, -⟩ := cancellation_stops_workers (.ofCategories []) Plan.quitting 3 2 false
    (acts ++ [.step 1])
  obtain ⟨-, hworker, htotals⟩ := hcutoff hc (Pool.turnsOf [2, 1, 0])
  have hends : ∀ (i : Nat) (w : Worker), p.workers[i]? = some w → w.stage ≠ .lost →
      3 ≤ (Pool.turnsOf [2, 1, 0]).count (.step i) → ∃ w', p'.workers[i]? = some w' ∧
        w'.outcome.queriesRun = w.outcome.queriesRun + w.pending ∧
        (w'.outcome.cancelled = true ↔ w'.outcome.queriesRun < 2) := by
    intro i w hw hs hcount
    obtain ⟨w', hw', -, -, -, hended, hlost, hkept⟩ := hworker i w hw
    have hs' : w'.stage ≠ .lost := by
      intro hlost'
      obtain hlost' | ⟨-, hq⟩ := hlost hlost'
      · exact hs hlost'
      · cases hq
    obtain ⟨hrun, -, hmark, -⟩ := hkept (hended hcount) hs'
    exact ⟨w', hw', hrun, hmark⟩
  refine ⟨hc, hf, (htotals hf).1.trans (by decide), ?_, ?_, ?_⟩
  · obtain ⟨w, hw, hrun, hmark⟩ := hends 0 ⟨⟨0, 1, 1, 0, false⟩, 1, .asking⟩ (by decide)
      (by decide) (by decide)
    exact ⟨w, hw, hrun, by simp [hmark, hrun, Worker.pending]⟩
  · obtain ⟨w, hw, hrun, hmark⟩ := hends 2 (.start 2) (by decide) (by decide) (by decide)
    exact ⟨w, hw, hrun, hmark.mpr (hrun ▸ by decide)⟩
  · obtain ⟨-, hasks⟩ := cancellation_stops_workers (.ofCategories []) Plan.quitting 3 2 false acts
    obtain ⟨-, hasked⟩ := hasks 1 ⟨.start 1, 0, .asking⟩ (by decide) rfl rfl rfl
    obtain ⟨x, hx, hid, hrun, hmark⟩ := hasked (Pool.turnsOf [2, 1, 0]) hf
    exact ⟨x, hx, hid, hrun, hmark.mpr (by decide)⟩

end EmojiCatalog
