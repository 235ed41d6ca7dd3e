import EmojiCatalog.Proofs.Pool.Progress
import Mathlib.Data.List.Induction
/-!
What comes of a pool.

When the workers of a pool have ended, each was either lost or kept its tally, and a kept tally is
that of a worker alone (`Kept`): it is complete, or a cancellation cut it short.  The outcome lists
the kept tallies by the numbers of their workers, in which order they are anyway
(`Sound.workers_outcome`), and its totals are theirs.  So it is balanced in every mix of workers
that were lost, stopped or finished (`outcome_accounts_for_workers`).

When the token was not cancelled nothing is left of the order in which the workers moved: the
outcome is that of the workers one after the other (`outcome_follows_plan`).
-/

namespace EmojiCatalog

variable {c : Catalog} {plan : Plan} {workerCount queries : Nat} {cancelled : Bool} {id : Nat}

/-! ### Kept tallies -/

/-- The tally is that of a worker alone, which ended after all its queries or was stopped by a
cancellation. -/
structure Worker.Kept (c : Catalog) (plan : Plan) (queries : Nat) (cancelled : Bool) (id : Nat)
    (tally : WorkerOutcome) : Prop where
  tally_eq : plan.tallyAlone c id tally.queriesRun = some { tally with cancelled := false }
  queriesRun_le : tally.queriesRun ≤ queries
  cancelled_iff : tally.cancelled = true ↔ tally.queriesRun < queries
  stopped : tally.queriesRun < queries → cancelled = true

namespace Worker

variable {w : Worker} {tally : WorkerOutcome}

/-- A worker that has ended was lost at a query, or has kept its tally. -/
theorem Sound.lost_or_kept (h : Sound c plan queries cancelled id w)
    (hf : w.isFinished = true) :
    (w.stage = .lost ∧ ∃ n < queries, plan.query id n = none ∧ plan.lasts id n = true) ∨
      w.stage ≠ .lost ∧ Kept c plan queries cancelled id w.outcome := by
  have hstands := h.stands
  have hlasts := (Plan.tallyAlone_eq_some_iff.mp h.tally_eq).1
  have hrun := h.queriesRun_eq
  obtain hs | hs := isFinished_iff.mp hf
  · right
    refine ⟨by simp [hs], ?_⟩
    have htally_eq : plan.tallyAlone c id w.outcome.queriesRun
        = some { w.outcome with cancelled := false } := hrun ▸ h.tally_eq
    rw [hs, ← hrun] at hstands
    generalize hmark : w.outcome.cancelled = mark at hstands
    generalize hk : w.outcome.queriesRun = k at hstands
    cases hstands with
    | finished =>
      refine ⟨htally_eq, Nat.le_of_eq hk, ?_, ?_⟩
      · simp [hmark, hk]
      · intro hlt
        omega
    | stopped hlt hc =>
      refine ⟨htally_eq, by omega, ?_, fun _ => hc⟩
      simpa [hmark, hk] using hlt
  · left
    rw [hs] at hstands
    generalize w.outcome.cancelled = mark at hstands
    cases hstands with
    | lost hlt hq => exact ⟨hs, _, hlt, hq, hlasts⟩

theorem Kept.eq (h : Kept c plan queries cancelled id tally) :
    { tally with cancelled := false } = (⟨id, tally.queriesRun,
      (List.range tally.queriesRun).countP (plan.isAnswered c id),
      (List.range tally.queriesRun).countP (plan.isRefused c id), false⟩ : WorkerOutcome) :=
  (Plan.tallyAlone_eq_some_iff.mp h.tally_eq).2

theorem Kept.workerId_eq (h : Kept c plan queries cancelled id tally) : tally.workerId = id :=
  congrArg WorkerOutcome.workerId h.eq

theorem Kept.successCount_eq (h : Kept c plan queries cancelled id tally) :
    tally.successCount = (List.range tally.queriesRun).countP (plan.isAnswered c id) :=
  congrArg WorkerOutcome.successCount h.eq

theorem Kept.errorCount_eq (h : Kept c plan queries cancelled id tally) :
    tally.errorCount = (List.range tally.queriesRun).countP (plan.isRefused c id) :=
  congrArg WorkerOutcome.errorCount h.eq

theorem Kept.queriesRun_eq (h : Kept c plan queries cancelled id tally) :
    tally.queriesRun = tally.successCount + tally.errorCount := by
  have hlasts := (Plan.tallyAlone_eq_some_iff.mp h.tally_eq).1
  rw [h.successCount_eq, h.errorCount_eq, Plan.countP_add_countP_of_lasts hlasts]

/-- Without a cancellation a kept tally is complete. -/
theorem Kept.complete (h : Kept c plan queries false id tally) :
    tally.queriesRun = queries ∧ plan.tallyAlone c id queries = some tally := by
  have hnot : ¬tally.queriesRun < queries := fun hlt => Bool.noConfusion (h.stopped hlt)
  have hrun : tally.queriesRun = queries := Nat.le_antisymm h.queriesRun_le (Nat.not_lt.mp hnot)
  have hmark : tally.cancelled = false :=
    Bool.eq_false_iff.mpr fun hc => hnot (h.cancelled_iff.mp hc)
  refine ⟨hrun, ?_⟩
  subst hrun
  have htally := h.tally_eq
  rwa [← hmark] at htally

end Worker

/-! ### Lists of tallies -/

/-- What is chosen from a list element by element can be chosen by number. -/
theorem filterMap_eq_filterMap_range {β γ : Type} {l : List β} {f : β → Option γ}
    {g : Nat → Option γ} (h : ∀ i x, l[i]? = some x → f x = g i) :
    l.filterMap f = (List.range l.length).filterMap g := by
  -- from the end of the list, so that the numbers of the elements before stay the same
  induction l using List.reverseRecOn with
  | nil => rfl
  | append_singleton l x ih =>
    have hinit : ∀ i y, l[i]? = some y → f y = g i := by
      intro i y hy
      refine h i y ?_
      rw [List.getElem?_append_left (List.getElem?_eq_some_iff.mp hy).1, hy]
    have hlast : f x = g l.length := h l.length x List.getElem?_concat_length
    rw [List.filterMap_append, List.length_append, List.length_singleton, List.range_succ,
      List.filterMap_append, ih hinit]
    simp only [List.filterMap_cons, List.filterMap_nil, hlast]

namespace Pool

variable {p : Pool} {i : Nat} {w : Worker} {tally : WorkerOutcome} {list : List WorkerOutcome}

theorem insertTally_perm (tally : WorkerOutcome) (list : List WorkerOutcome) :
    (insertTally tally list).Perm (tally :: list) := by
  induction list with
  | nil => exact .refl _
  | cons next rest ih =>
    rw [insertTally]
    split
    · exact .refl _
    · exact (ih.cons next).trans (.swap tally next rest)

theorem sortTallies_perm (list : List WorkerOutcome) : (sortTallies list).Perm list := by
  induction list with
  | nil => exact .refl _
  | cons tally rest ih => exact (insertTally_perm tally _).trans (ih.cons tally)

theorem insertTally_of_le (h : ∀ x ∈ list, tally.workerId ≤ x.workerId) :
    insertTally tally list = tally :: list := by
  cases list with
  | nil => rfl
  | cons next rest => rw [insertTally, if_pos (h next List.mem_cons_self)]

/-- Sorting changes nothing about tallies that are in order. -/
theorem sortTallies_of_pairwise (h : list.Pairwise (·.workerId ≤ ·.workerId)) :
    sortTallies list = list := by
  induction h with
  | nil => rfl
  | cons hfirst _ ih =>
    show insertTally _ (sortTallies _) = _
    rw [ih, insertTally_of_le hfirst]

/-- Whether the worker of the given number was lost. -/
def isLost (p : Pool) (i : Nat) : Bool :=
  p.workers[i]?.any fun w => w.stage == .lost

theorem tallies_eq_filterMap (workers : List Worker) :
    tallies workers
      = workers.filterMap fun w => if w.stage = .lost then none else some w.outcome := by
  induction workers with
  | nil => rfl
  | cons w workers ih =>
    rw [List.filterMap_cons, ← ih, tallies, List.filter_cons, tallies]
    by_cases hs : w.stage = .lost <;> simp [hs]

/-- Every worker is counted among the lost ones or keeps its tally. -/
theorem failedWorkers_add_length (p : Pool) :
    p.outcome.failedWorkers + p.outcome.workers.length = p.workers.length := by
  have hlength : p.outcome.workers.length = (tallies p.workers).length :=
    (sortTallies_perm _).length_eq
  rw [hlength]
  show p.workers.countP (fun w => w.stage == .lost) + (tallies p.workers).length = p.workers.length
  rw [tallies, List.length_map, ← List.countP_eq_length_filter,
    List.length_eq_countP_add_countP (fun w => w.stage == .lost) (l := p.workers)]
  congr 1
  exact List.countP_congr fun w _ => by simp

/-- The worker of the given number keeps the tally. -/
theorem Sound.exists_of_mem_workers (h : Sound c plan workerCount queries p)
    (hf : p.isFinished = true) (ht : tally ∈ p.outcome.workers) :
    ∃ i w, p.workers[i]? = some w ∧ w.stage ≠ .lost ∧ w.outcome = tally ∧
      Worker.Kept c plan queries p.cancelled i tally := by
  have ht : tally ∈ tallies p.workers := (sortTallies_perm _).mem_iff.mp ht
  obtain ⟨w, hw, rfl⟩ := List.mem_map.mp ht
  obtain ⟨hmem, hstage⟩ := List.mem_filter.mp hw
  have hstage : w.stage ≠ .lost := by simpa using hstage
  obtain ⟨i, hi⟩ := List.getElem?_of_mem hmem
  have hended := (h.worker i w hi).lost_or_kept (List.all_eq_true.mp hf w hmem)
  obtain ⟨hlost, -⟩ | ⟨-, hkept⟩ := hended
  · exact absurd hlost hstage
  · exact ⟨i, w, hi, hstage, rfl, hkept⟩

theorem Sound.kept_of_mem_workers (h : Sound c plan workerCount queries p)
    (hf : p.isFinished = true) (ht : tally ∈ p.outcome.workers) :
    Worker.Kept c plan queries p.cancelled tally.workerId tally := by
  obtain ⟨i, -, -, -, -, hkept⟩ := h.exists_of_mem_workers hf ht
  exact hkept.workerId_eq ▸ hkept

theorem Sound.map_workerId_tallies (h : Sound c plan workerCount queries p) :
    (tallies p.workers).map (·.workerId)
      = (List.range workerCount).filter fun i => !p.isLost i := by
  have hids : ∀ i w, p.workers[i]? = some w →
      ((if w.stage = .lost then none else some w.outcome).map (·.workerId))
        = if !p.isLost i then some i else none := by
    intro i w hw
    have hid := (h.worker i w hw).workerId_eq
    by_cases hs : w.stage = .lost <;> simp [isLost, hw, hs, hid]
  rw [tallies_eq_filterMap, List.map_filterMap, filterMap_eq_filterMap_range hids, h.length_eq]
  induction List.range workerCount with
  | nil => rfl
  | cons i numbers ih =>
    rw [List.filterMap_cons, List.filter_cons]
    cases p.isLost i with
    | false => simp only [Bool.not_false, if_true, ih]
    | true => simp only [Bool.not_true, Bool.false_eq_true, if_false, ih]

/-- The tallies are in the order of their workers, so that there is nothing to sort. -/
theorem Sound.workers_outcome (h : Sound c plan workerCount queries p) :
    p.outcome.workers = tallies p.workers := by
  have hids : ((tallies p.workers).map (·.workerId)).Pairwise (· < ·) := by
    rw [h.map_workerId_tallies]
    exact List.pairwise_lt_range.filter _
  exact sortTallies_of_pairwise ((List.pairwise_map.mp hids).imp Nat.le_of_lt)

/-- The workers are listed by their numbers, without those that were lost. -/
theorem Sound.map_workerId (h : Sound c plan workerCount queries p) :
    p.outcome.workers.map (·.workerId)
      = (List.range workerCount).filter fun i => !p.isLost i := by
  rw [h.workers_outcome, h.map_workerId_tallies]

/-- A worker is lost only where its plan breaks down. -/
theorem Sound.exists_of_isLost (h : Sound c plan workerCount queries p)
    (hlost : p.isLost i = true) :
    ∃ n < queries, plan.query i n = none ∧ plan.lasts i n = true := by
  obtain ⟨w, hw, hs⟩ := Option.any_eq_true _ _ |>.mp hlost
  have hs : w.stage = .lost := by simpa using hs
  have hended := (h.worker i w hw).lost_or_kept (Worker.isFinished_iff.mpr (.inr hs))
  obtain ⟨-, hn⟩ | ⟨hs', -⟩ := hended
  · exact hn
  · exact absurd hs hs'

end Pool

/-- **The outcome of a pool accounts for all its workers**, in every order in which they move and
wherever a cancellation comes between.

* The pool ends as soon as every worker has made enough steps; taking turns is one way to get there.
* Every worker is listed or counted as lost, in the order of their numbers, and a worker is lost
  only where its plan breaks down.
* A listed worker has a balanced tally of at most all its queries, and is marked as stopped exactly
  if it has fewer.
* The totals are those of the listed workers, and the outcome is marked exactly if one of them
  stopped early.

No query is put twice in one history, so it is no restriction that a plan is a function. -/
theorem outcome_accounts_for_workers (c : Catalog) (plan : Plan) (workerCount queries : Nat)
    (cancelled : Bool) :
    (∃ turns, Pool.run c plan workerCount queries cancelled
        = (Pool.start workerCount queries cancelled).after c plan turns ∧
      (Pool.run c plan workerCount queries cancelled).isFinished = true) ∧
    ∀ acts,
      let p := (Pool.start workerCount queries cancelled).after c plan acts
      (∀ more, (∀ i < workerCount, 3 * queries + 1 ≤ more.count (.step i)) →
        (p.after c plan more).isFinished = true) ∧
      (p.isFinished = true →
        let o := p.outcome
        o.failedWorkers + o.workers.length = workerCount ∧
        o.workers.map (·.workerId) = ((List.range workerCount).filter fun i => !p.isLost i) ∧
        (o.workers.map (·.workerId)).Pairwise (· < ·) ∧
        (∀ i, p.isLost i = true →
          ∃ n < queries, plan.query i n = none ∧ plan.lasts i n = true) ∧
        (∀ x ∈ o.workers, x.queriesRun = x.successCount + x.errorCount ∧ x.queriesRun ≤ queries ∧
          (x.cancelled = true ↔ x.queriesRun < queries)) ∧
        o.totalQueries = sumOf (·.queriesRun) o.workers ∧
        o.totalSuccess = sumOf (·.successCount) o.workers ∧
        o.totalErrors = sumOf (·.errorCount) o.workers ∧
        o.totalSuccess + o.totalErrors = o.totalQueries ∧
        (o.cancelled = true ↔ ∃ x ∈ o.workers, x.queriesRun < queries)) := by
  refine ⟨Pool.run_eq_after c plan workerCount queries cancelled [], ?_⟩
  intro acts p
  have h : p.Sound c plan workerCount queries :=
    (Pool.Sound.start c plan workerCount queries cancelled).after acts
  refine ⟨fun more hfair => h.isFinished_after_of_fair hfair, ?_⟩
  intro hf o
  have hkept : ∀ x ∈ o.workers, Worker.Kept c plan queries p.cancelled x.workerId x :=
    fun x hx => h.kept_of_mem_workers hf hx
  refine ⟨?_, h.map_workerId, ?_, fun i hi => h.exists_of_isLost hi, ?_, rfl, rfl, rfl, ?_, ?_⟩
  · rw [← h.length_eq]
    exact p.failedWorkers_add_length
  · rw [h.map_workerId]
    exact List.pairwise_lt_range.filter _
  · intro x hx
    exact ⟨(hkept x hx).queriesRun_eq, (hkept x hx).queriesRun_le, (hkept x hx).cancelled_iff⟩
  · show sumOf (·.successCount) o.workers + sumOf (·.errorCount) o.workers
      = sumOf (·.queriesRun) o.workers
    rw [sumOf_congr fun x hx => (hkept x hx).queriesRun_eq]
    induction o.workers with
    | nil => rfl
    | cons x workers ih =>
      simp only [sumOf_cons]
      omega
  · show o.workers.any (·.cancelled) = true ↔ _
    rw [List.any_eq_true]
    exact exists_congr fun x => and_congr_right fun hx => (hkept x hx).cancelled_iff

/-- A plan that breaks down at the second query of worker 1 and fails all other second queries. -/
def Plan.faltering : Plan where
  query id n :=
    match id, n with
    | 1, 1 => none
    | _, 1 => some { text := "", subcategory := some "nowhere" }
    | _, _ => some { text := "" }

/-- A history of three workers: one finishes, one is lost, and a cancellation stops the third before
its second query. -/
def Pool.mixedActs : List Pool.Act :=
  List.replicate 7 (.step 0) ++ List.replicate 5 (.step 1) ++ List.replicate 3 (.step 2)
    ++ [.cancel, .step 2]

theorem outcome_accounts_for_workers_mixedActs :
    let p := (Pool.start 3 2 false).after (.ofCategories []) Plan.faltering Pool.mixedActs
    let turns := Pool.turnsOf [0, 1, 2, 2, 1, 0, 0, 1, 2]
    (p.after (.ofCategories []) Plan.faltering turns).isFinished = true ∧
      p.isFinished = true ∧ p.outcome.failedWorkers + p.outcome.workers.length = 3 ∧
      p.outcome.workers = [⟨0, 2, 1, 1, false⟩, ⟨2, 1, 1, 0, true⟩] ∧
      p.outcome.cancelled = true := by
  intro p turns
  have hfair : ∀ i < 3, 3 * 2 + 1 ≤ turns.count (.step i) := by decide
  have hf : p.isFinished = true := by decide
  have hworkers : p.outcome.workers = [⟨0, 2, 1, 1, false⟩, ⟨2, 1, 1, 0, true⟩] := by
    decide
  obtain ⟨-, h⟩ := outcome_accounts_for_workers (.ofCategories []) Plan.faltering 3 2 false
  obtain ⟨hends, h⟩ := h Pool.mixedActs
  obtain ⟨hall, -, -, -, -, -, -, -, -, hcancelled⟩ := h hf
  refine ⟨hends _ hfair, hf, hall, hworkers, hcancelled.mpr ⟨⟨2, 1, 1, 0, true⟩, ?_, by decide⟩⟩
  rw [hworkers]
  decide

/-! ### The workers one after the other -/

/-- The outcome of the workers of a pool by themselves, one after the other. -/
def Plan.outcomeAlone (plan : Plan) (c : Catalog) (workerCount queries : Nat) : PoolOutcome :=
  let kept := (List.range workerCount).filterMap fun i => plan.tallyAlone c i queries
  { totalQueries := sumOf (·.queriesRun) kept
    totalSuccess := sumOf (·.successCount) kept
    totalErrors := sumOf (·.errorCount) kept
    workers := kept
    cancelled := false
    failedWorkers := (List.range workerCount).countP fun i => !plan.lasts i queries }

theorem Plan.isSome_tallyAlone {n : Nat} :
    (plan.tallyAlone c id n).isSome = plan.lasts id n := by
  rw [Bool.eq_iff_iff, Option.isSome_iff_exists]
  simp only [tallyAlone_eq_some_iff]
  exact ⟨fun ⟨_, h, _⟩ => h, fun h => ⟨_, h, rfl⟩⟩

namespace Pool

variable {p : Pool} {i : Nat} {w : Worker}

/-- Without a cancellation a worker that has ended keeps what it would have alone, or was lost as it
would be alone. -/
theorem Sound.kept_eq_tallyAlone (h : Sound c plan workerCount queries p)
    (hf : p.isFinished = true) (hc : p.cancelled = false) (hw : p.workers[i]? = some w) :
    (if w.stage = .lost then none else some w.outcome) = plan.tallyAlone c i queries := by
  have hend := List.all_eq_true.mp hf w (List.mem_of_getElem? hw)
  obtain ⟨hs, n, hn, hq, -⟩ | ⟨hs, hkept⟩ := (h.worker i w hw).lost_or_kept hend
  · -- a breakdown at some query is one for every number of queries beyond it
    have hbreaks : plan.tallyAlone c i (n + 1) = none := by
      cases ht : plan.tallyAlone c i n <;> simp [Plan.tallyAlone, ht, hq]
    rw [if_pos hs, Plan.tallyAlone_eq_none_of_le hbreaks hn]
  · rw [hc] at hkept
    rw [if_neg hs, hkept.complete.2]

theorem Sound.isLost_eq (h : Sound c plan workerCount queries p) (hf : p.isFinished = true)
    (hc : p.cancelled = false) (hi : i < workerCount) :
    p.isLost i = !plan.lasts i queries := by
  obtain ⟨w, hw⟩ : ∃ w, p.workers[i]? = some w := ⟨_, List.getElem?_eq_getElem (h.length_eq ▸ hi)⟩
  rw [← Plan.isSome_tallyAlone (c := c), ← h.kept_eq_tallyAlone hf hc hw, isLost, hw]
  by_cases hs : w.stage = .lost <;> simp [hs]

/-- Without a cancellation nothing is left of the order of the moves. -/
theorem Sound.outcome_eq (h : Sound c plan workerCount queries p) (hf : p.isFinished = true)
    (hc : p.cancelled = false) : p.outcome = plan.outcomeAlone c workerCount queries := by
  have hkept : p.outcome.workers
      = (List.range workerCount).filterMap fun i => plan.tallyAlone c i queries := by
    rw [h.workers_outcome, tallies_eq_filterMap, ← h.length_eq]
    exact filterMap_eq_filterMap_range fun i w hw => h.kept_eq_tallyAlone hf hc hw
  have hmark : p.outcome.cancelled = false := by
    show p.outcome.workers.any (·.cancelled) = false
    rw [hkept, List.any_eq_false]
    intro x hx
    obtain ⟨i, -, hi⟩ := List.mem_filterMap.mp hx
    simp [(Plan.tallyAlone_eq_some_iff.mp hi).2]
  have hfailed : p.outcome.failedWorkers
      = (List.range workerCount).countP fun i => !plan.lasts i queries := by
    have hall := p.failedWorkers_add_length
    have hsplit := List.length_eq_countP_add_countP (plan.lasts · queries)
      (l := List.range workerCount)
    rw [hkept, List.length_filterMap_eq_countP, h.length_eq] at hall
    simp only [Plan.isSome_tallyAlone] at hall
    simp only [List.length_range, Bool.not_eq_true, Bool.decide_eq_false] at hsplit
    omega
  show (⟨sumOf (·.queriesRun) p.outcome.workers, sumOf (·.successCount) p.outcome.workers,
    sumOf (·.errorCount) p.outcome.workers, p.outcome.workers, p.outcome.cancelled,
    p.outcome.failedWorkers⟩ : PoolOutcome) = _
  rw [hkept, hmark, hfailed]
  rfl

end Pool

/-- **The outcome of a pool follows its plan**, whatever the order in which the workers moved.

* A listed worker has the tally that it would have alone after as many queries: so many of them are
  answered and so many fail, and none of them stopped it.  If it has fewer than all its queries, the
  token was cancelled.
* If the token was never cancelled, the workers whose plans last have put all their queries, the
  others were lost, and the outcome is the same as if the workers had come one after the other. -/
theorem outcome_follows_plan (c : Catalog) (plan : Plan) (workerCount queries : Nat)
    (cancelled : Bool) (acts : List Pool.Act) :
    let p := (Pool.start workerCount queries cancelled).after c plan acts
    let o := p.outcome
    p.isFinished = true →
      (∀ x ∈ o.workers,
        plan.tallyAlone c x.workerId x.queriesRun = some { x with cancelled := false } ∧
        (∀ n < x.queriesRun, (plan.query x.workerId n).isSome = true) ∧
        x.successCount = (List.range x.queriesRun).countP (plan.isAnswered c x.workerId) ∧
        x.errorCount = (List.range x.queriesRun).countP (plan.isRefused c x.workerId) ∧
        (x.queriesRun < queries → p.cancelled = true)) ∧
      (p.cancelled = false →
        (∀ i < workerCount, plan.lasts i queries = true →
          ∃ x ∈ o.workers, x.workerId = i ∧ x.queriesRun = queries) ∧
        (∀ i < workerCount, p.isLost i = true ↔ ∃ n < queries, plan.query i n = none) ∧
        o = plan.outcomeAlone c workerCount queries) := by
  intro p o hf
  have h : p.Sound c plan workerCount queries :=
    (Pool.Sound.start c plan workerCount queries cancelled).after acts
  constructor
  · intro x hx
    have hkept := h.kept_of_mem_workers hf hx
    have hlasts := (Plan.tallyAlone_eq_some_iff.mp hkept.tally_eq).1
    refine ⟨hkept.tally_eq, ?_, hkept.successCount_eq, hkept.errorCount_eq, hkept.stopped⟩
    intro n hn
    exact List.all_eq_true.mp hlasts n (List.mem_range.mpr hn)
  · intro hc
    have ho : o = plan.outcomeAlone c workerCount queries := h.outcome_eq hf hc
    refine ⟨?_, ?_, ho⟩
    · intro i hi hlasts
      have htally := Plan.tallyAlone_eq_some_iff (c := c).mpr ⟨hlasts, rfl⟩
      rw [ho]
      exact ⟨_, List.mem_filterMap.mpr ⟨i, List.mem_range.mpr hi, htally⟩, rfl, rfl⟩
    · intro i hi
      rw [h.isLost_eq hf hc hi, Plan.lasts]
      simp

theorem outcome_follows_plan_faltering :
    let p := (Pool.start 3 2 false).after (.ofCategories []) Plan.faltering
      (Pool.turnsOf [2, 1, 1, 0, 2, 0, 0, 2, 1])
    p.isFinished = true ∧ p.cancelled = false ∧
      (∀ x ∈ p.outcome.workers, x.successCount = 1) ∧
      p.outcome = Plan.faltering.outcomeAlone (.ofCategories []) 3 2 ∧
      p.outcome.workers = [⟨0, 2, 1, 1, false⟩, ⟨2, 2, 1, 1, false⟩] := by
  intro p
  have hf : p.isFinished = true := by decide
  have hc : p.cancelled = false := by decide
  obtain ⟨hlisted, halone⟩ := outcome_follows_plan (.ofCategories []) Plan.faltering 3 2 false
    (Pool.turnsOf [2, 1, 1, 0, 2, 0, 0, 2, 1]) hf
  obtain ⟨-, -, houtcome⟩ := halone hc
  have hworkers : p.outcome.workers = [⟨0, 2, 1, 1, false⟩, ⟨2, 2, 1, 1, false⟩] := by
    rw [houtcome]
    decide
  refine ⟨hf, hc, ?_, houtcome, hworkers⟩
  intro x hx
  obtain ⟨-, -, hsuccess, -⟩ := hlisted x hx
  rw [hsuccess]
  rw [hworkers] at hx
  revert x
  decide

end EmojiCatalog
