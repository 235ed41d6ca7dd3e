import EmojiCatalog.Proofs.Documents
import EmojiCatalog.Proofs.Pool.Cutoff
import EmojiCatalog.Proofs.Pool.Undisturbed
/-!
The balance of a worker's tally.

A worker counts every query as answered or as failed, so every tally that a pool lists is balanced.
That is all that can be said of the counts: any balanced tally is listed by some pool
(`WorkerOutcome.isListed_of_balanced`).  Its worker puts the queries of the tally one after the
other (`Pool.exists_checking_after`), and then the token is cancelled, which leaves the worker
at that (`Pool.Sound.exists_isFinished_of_checking`).

Reading a tally from a document does not look at the balance: the counts are taken as they stand,
so any counts that are words can be read (`pools_keep_balance`).
-/

namespace EmojiCatalog

open Json

variable {c : Catalog} {plan : Plan} {workerCount queries id n : Nat}

namespace Pool

variable {p : Pool} {w : Worker}

/-! ### Reaching a number of queries -/

/-- A worker that has not ended makes a move when it is its turn. -/
theorem exists_moves_of_step (c : Catalog) (plan : Plan) (hw : p.workers[id]? = some w)
    (hf : w.isFinished = false) :
    ∃ m, w.Moves c plan p.queries p.cancelled m ∧
      (p.act c plan (.step id)).workers[id]? = some m.worker := by
  obtain ⟨-, hended⟩ | ⟨-, m, hm, hmoved⟩ := worker_act_cases c plan hw (.step id)
  · rw [hended rfl] at hf
    cases hf
  · exact ⟨m, hm, hmoved⟩

/-- In a pool that nobody cancels, three steps take a worker from one check to the next. -/
theorem Sound.exists_next_checking (h : Sound c plan workerCount queries p)
    (hc : p.cancelled = false) (hplan : ∀ id n, plan.cancels id n = false)
    (hasks : ∀ n, (plan.query id n).isSome = true) (hw : p.workers[id]? = some w)
    (hs : w.stage = .checking) (hi : w.index < queries) :
    let p' := p.after c plan (List.replicate 3 (.step id))
    p'.cancelled = false ∧
      ∃ w' : Worker, p'.workers[id]? = some w' ∧ w'.stage = .checking ∧
        w'.index = w.index + 1 := by
  intro p'
  have hc₁ := cancelled_advance (c := c) hplan id hc
  have hc₂ := cancelled_advance (c := c) hplan id hc₁
  refine ⟨cancelled_advance hplan id hc₂, ?_⟩
  have h₁ := h.act (.step id)
  have h₂ := h₁.act (.step id)
  have hid := (h.worker id w hw).workerId_eq
  obtain ⟨m₁, hm₁, hw₁⟩ := exists_moves_of_step c plan hw
    (by rw [Worker.isFinished, hs])
  rw [hc, h.queries_eq] at hm₁
  -- the check is passed, because there is a query left and nothing is cancelled
  obtain rfl : m₁ = { worker := { w with stage := .asking } } := by
    cases hm₁ with
    | check _ _ _ => rfl
    | finish _ hi' => exact absurd hi (Nat.not_lt.mpr hi')
    | stop _ _ hc' => cases hc'
    | ask hs' _ | lose hs' _ | answer hs' _ | fail hs' _ => cases hs.symm.trans hs'
  obtain ⟨m₂, hm₂, hw₂⟩ := exists_moves_of_step c plan hw₁ rfl
  -- the plan does not break down
  obtain ⟨q, hsearching⟩ : ∃ q, m₂.worker = { w with stage := .searching q } := by
    cases hm₂ with
    | @ask q _ _ => exact ⟨q, rfl⟩
    | lose _ hq =>
      have hsome := hasks w.index
      rw [← hid, hq] at hsome
      cases hsome
    | finish hs' _ | stop hs' _ _ | check hs' _ _ | answer hs' _ | fail hs' _ => cases hs'
  rw [hsearching] at hw₂
  obtain ⟨m₃, hm₃, hw₃⟩ := exists_moves_of_step c plan hw₂ rfl
  refine ⟨m₃.worker, hw₃, ?_⟩
  -- an answered and a failed query both lead to the next check
  cases hm₃ with
  | answer _ _ | fail _ _ => exact ⟨rfl, rfl⟩
  | finish hs' _ | stop hs' _ _ | check hs' _ _ | ask hs' _ | lose hs' _ => cases hs'

/-- In a pool that nobody cancels a worker comes to the check after any number of its queries. -/
theorem exists_checking_after (c : Catalog) (plan : Plan)
    (hplan : ∀ id n, plan.cancels id n = false)
    (hasks : ∀ n, (plan.query id n).isSome = true) (hid : id < workerCount) (hn : n ≤ queries) :
    ∃ acts,
      let p := (start workerCount queries false).after c plan acts
      p.cancelled = false ∧
        ∃ w : Worker, p.workers[id]? = some w ∧ w.stage = .checking ∧ w.index = n := by
  induction n with
  | zero =>
    refine ⟨[], rfl, .start id, ?_, rfl, rfl⟩
    show ((List.range workerCount).map Worker.start)[id]? = _
    rw [List.getElem?_map, List.getElem?_range hid]
    rfl
  | succ n ih =>
    obtain ⟨acts, hc, w, hw, hs, rfl⟩ := ih (Nat.le_of_succ_le hn)
    have h := (Sound.start c plan workerCount queries false).after acts
    refine ⟨acts ++ List.replicate 3 (.step id), ?_⟩
    rw [after_append]
    exact h.exists_next_checking hc hplan hasks hw hs hn

/-! ### Ending there -/

/-- A worker that is about to look at a cancelled token ends with the tally that it has. -/
theorem Sound.exists_isFinished_of_checking (h : Sound c plan workerCount queries p)
    (hc : p.cancelled = true) (hw : p.workers[id]? = some w) (hs : w.stage = .checking) :
    ∃ acts, (p.after c plan acts).isFinished = true ∧
      ∃ x ∈ (p.after c plan acts).outcome.workers, x.queriesRun = w.index ∧
        Worker.Kept c plan queries true id x := by
  obtain ⟨acts, hrounds, hf⟩ := h.exists_isFinished_rounds
  rw [hrounds] at hf
  have h' := h.after acts
  obtain ⟨w', hw', hwinds, -⟩ := h.windsDown_after hc hw (.refl w) acts
  have hended := List.all_eq_true.mp hf w' (List.mem_of_getElem? hw')
  have hkeeps : w'.stage ≠ .lost := by
    intro hlost
    obtain hs' | ⟨hs', -⟩ := hwinds.lost hlost <;> cases hs.symm.trans hs'
  obtain ⟨hrun, hkept⟩ := h.kept_of_windsDown hw h' hw' hwinds hended hkeeps
  -- at a check no query is at hand, so none is counted any more
  have hpending : w.pending = 0 := by simp only [Worker.pending, hs]
  rw [cancelled_after hc acts] at hkept
  rw [hpending, Nat.add_zero, (h.worker id w hw).queriesRun_eq] at hrun
  exact ⟨acts, hf, w'.outcome, mem_outcome_workers hw' hkeeps, hrun, hkept⟩

end Pool

/-! ### Tallies that pools list -/

/-- The plan in which so many queries of every worker are answered and all others fail, as long as
no subcategory is named like that. -/
def Plan.firstAnswered (answered : Nat) : Plan where
  query _ n := some { text := "", subcategory := if n < answered then none else some "nowhere" }

theorem Plan.tallyAlone_firstAnswered (answered : Nat) :
    (firstAnswered answered).tallyAlone (.ofCategories []) id n
      = some ⟨id, n, min n answered, n - answered, false⟩ := by
  have hanswered : ∃ hits, Catalog.search (.ofCategories []) { text := "" } = .ok hits := ⟨[], rfl⟩
  have hrefused : ∃ f, Catalog.search (.ofCategories [])
      { text := "", subcategory := some "nowhere" } = .error f := ⟨_, rfl⟩
  obtain ⟨hits, hanswered⟩ := hanswered
  obtain ⟨f, hrefused⟩ := hrefused
  induction n with
  | zero => simp [tallyAlone, WorkerOutcome.start]
  | succ n ih =>
    rw [tallyAlone, ih]
    by_cases hn : n < answered
    · simp [firstAnswered, hn, hanswered, WorkerOutcome.recordSuccess]
      omega
    · simp [firstAnswered, hn, hrefused, WorkerOutcome.recordError]
      omega

namespace WorkerOutcome

variable {o : WorkerOutcome}

/-- Some pool lists the tally when it has ended: under some plan, in some order of moves, and with
or without cancellations. -/
def IsListed (o : WorkerOutcome) : Prop :=
  ∃ (c : Catalog) (plan : Plan) (workerCount queries : Nat) (cancelled : Bool)
    (acts : List Pool.Act),
    let p := (Pool.start workerCount queries cancelled).after c plan acts
    p.isFinished = true ∧ o ∈ p.outcome.workers

theorem IsListed.balanced (h : o.IsListed) : o.queriesRun = o.successCount + o.errorCount := by
  obtain ⟨c, plan, workerCount, queries, cancelled, acts, hf, ho⟩ := h
  have h := (Pool.Sound.start c plan workerCount queries cancelled).after acts
  exact (h.kept_of_mem_workers hf ho).queriesRun_eq

/-- The number of queries with which a worker is marked as stopped just as in the tally. -/
def queriesFor (o : WorkerOutcome) : Nat := o.queriesRun + if o.cancelled then 1 else 0

/-- Under the plan that answers as many queries as a balanced tally says, this tally is the only one
that can be kept after its queries. -/
theorem eq_of_kept {cancelled : Bool} (hbalanced : o.queriesRun = o.successCount + o.errorCount)
    {x : WorkerOutcome} (hrun : x.queriesRun = o.queriesRun)
    (hkept : Worker.Kept (.ofCategories []) (.firstAnswered o.successCount) o.queriesFor cancelled
      o.workerId x) : x = o := by
  have hcounts := hkept.tally_eq
  have hmin : min o.queriesRun o.successCount = o.successCount := by omega
  have hsub : o.queriesRun - o.successCount = o.errorCount := by omega
  rw [hrun, Plan.tallyAlone_firstAnswered, hmin, hsub] at hcounts
  have hmark : x.cancelled = o.cancelled := by
    rw [Bool.eq_iff_iff, hkept.cancelled_iff, hrun, queriesFor]
    cases o.cancelled <;> simp
  simp only [Option.some.injEq, mk.injEq, and_true, true_and] at hcounts
  obtain ⟨hid, hsuccess, herror⟩ := hcounts
  show (⟨x.workerId, x.queriesRun, x.successCount, x.errorCount, x.cancelled⟩ : WorkerOutcome) = o
  rw [← hid, hrun, ← hsuccess, ← herror, hmark]

/-- Every balanced tally is listed by some pool. -/
theorem isListed_of_balanced (hbalanced : o.queriesRun = o.successCount + o.errorCount) :
    o.IsListed := by
  have hle : o.queriesRun ≤ o.queriesFor := Nat.le_add_right _ _
  obtain ⟨first, -, w, hw, hs, hindex⟩ := Pool.exists_checking_after (.ofCategories [])
    (.firstAnswered o.successCount) (fun _ _ => rfl) (fun _ => rfl)
    (Nat.lt_succ_self o.workerId) hle
  have h := ((Pool.Sound.start (.ofCategories []) (.firstAnswered o.successCount)
    (o.workerId + 1) o.queriesFor false).after first).act .cancel
  obtain ⟨last, hf, x, hx, hrun, hkept⟩ := h.exists_isFinished_of_checking rfl hw hs
  obtain rfl : x = o := eq_of_kept hbalanced (hrun.trans hindex) hkept
  refine ⟨.ofCategories [], .firstAnswered x.successCount, x.workerId + 1, x.queriesFor, false,
    first ++ .cancel :: last, ?_⟩
  rw [Pool.after_append, Pool.after_cons]
  exact ⟨hf, hx⟩

/-- The tallies that can be read are those whose counts are words, balanced or not. -/
theorem exists_decode_iff {o : WorkerOutcome} :
    (∃ s, codec.decode s = .ok o) ↔
      o.workerId < UInt64.size ∧ o.queriesRun < UInt64.size ∧ o.successCount < UInt64.size ∧
        o.errorCount < UInt64.size := by
  constructor
  · rintro ⟨s, hs⟩
    exact faithful_codec.fits_of_decode hs
  · intro hwords
    exact ⟨codec.encode o, faithful_codec.decode_encode hwords⟩

end WorkerOutcome

/-- **Pools keep the balance of their workers, and documents do not.**

* The tallies that pools list are the balanced ones.  No plan, no order of moves and no cancellation
  brings a pool to list another, and every balanced tally is listed by some pool.
* The tallies that are read from documents are those whose counts are words.  So the balance of
  what is read holds exactly if some pool could have written it. -/
theorem pools_keep_balance (o : WorkerOutcome) :
    (o.IsListed ↔ o.queriesRun = o.successCount + o.errorCount) ∧
    ((∃ s, WorkerOutcome.codec.decode s = .ok o) ↔
      o.workerId < UInt64.size ∧ o.queriesRun < UInt64.size ∧ o.successCount < UInt64.size ∧
        o.errorCount < UInt64.size) :=
  ⟨⟨fun h => h.balanced, WorkerOutcome.isListed_of_balanced⟩, WorkerOutcome.exists_decode_iff⟩

/-- Of three workers one finishes, one is lost and one is stopped: the tally of the third is
balanced and is read from some document. -/
theorem pools_keep_balance_mixedActs :
    let p := (Pool.start 3 2 false).after (.ofCategories []) Plan.faltering Pool.mixedActs
    p.isFinished = true ∧ p.outcome.workers = [⟨0, 2, 1, 1, false⟩, ⟨2, 1, 1, 0, true⟩] ∧
      (⟨2, 1, 1, 0, true⟩ : WorkerOutcome).isBalanced = true ∧
      ∃ s, WorkerOutcome.codec.decode s = .ok ⟨2, 1, 1, 0, true⟩ := by
  intro p
  have hf : p.isFinished = true := by decide
  have hworkers : p.outcome.workers = [⟨0, 2, 1, 1, false⟩, ⟨2, 1, 1, 0, true⟩] := by decide
  obtain ⟨hlisted, hread⟩ := pools_keep_balance ⟨2, 1, 1, 0, true⟩
  refine ⟨hf, hworkers, beq_iff_eq.mpr (hlisted.mp ?_), hread.mpr (by decide)⟩
  refine ⟨.ofCategories [], Plan.faltering, 3, 2, false, Pool.mixedActs, hf, ?_⟩
  rw [hworkers]
  exact List.mem_cons_of_mem _ (List.mem_singleton_self _)

/-- A tally and the report of a pool whose worker has put a query that was neither answered nor
failed are read all the same. -/
theorem unbalanced_tally_is_read :
    WorkerOutcome.codec.decode ("\x7b\"worker_id\":0,\"queries_run\":1,\"success_count\":0,"
        ++ "\"error_count\":0,\"cancelled\":false\x7d")
      = .ok ⟨0, 1, 0, 0, false⟩ ∧
    (PoolReport.codec.decode "[1,0,0,[[0,1,0,0,false]],[0,0],0,false,0]").map (·.outcome.workers)
      = .ok [⟨0, 1, 0, 0, false⟩] ∧
    (⟨0, 1, 0, 0, false⟩ : WorkerOutcome).isBalanced = false := by
  refine ⟨?_, ?_, rfl⟩
  · decide +kernel
  · decide +kernel

end EmojiCatalog
