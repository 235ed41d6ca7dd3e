import EmojiCatalog.Proofs.Pool.Moves
/-!
The tallies of the workers.

`Plan.tallyAlone` is the tally of one worker by itself: it puts its queries one after the other, and
is lost when its plan breaks down.  In every history of a pool each worker has the tally that it
would have alone after as many queries (`Pool.Sound`), because its moves look at nothing of the pool
but the token, and the token decides only whether there is a next query.

`Stands` says how far a worker can be in each stage, and why it has ended if it has: it has no query
left, the token was cancelled, or its plan breaks down at the next query.
-/

namespace EmojiCatalog

variable {c : Catalog} {plan : Plan} {workerCount queries : Nat} {cancelled : Bool} {id n : Nat}

/-! ### A worker by itself -/

namespace Plan

/-- The tally of a worker alone after its first queries, unless its plan breaks down at one. -/
def tallyAlone (plan : Plan) (c : Catalog) (id : Nat) : Nat → Option WorkerOutcome
  | 0 => some (.start id)
  | n + 1 => do
    let tally ← plan.tallyAlone c id n
    let q ← plan.query id n
    match c.search q with
    | .ok _ => return tally.recordSuccess
    | .error _ => return tally.recordError

/-- Whether a query of a plan is answered. -/
def isAnswered (plan : Plan) (c : Catalog) (id n : Nat) : Bool :=
  (plan.query id n).any fun q => (c.search q).isOk

/-- Whether a query of a plan fails. -/
def isRefused (plan : Plan) (c : Catalog) (id n : Nat) : Bool :=
  (plan.query id n).any fun q => !(c.search q).isOk

/-- Whether a plan has so many queries for a worker without breaking down. -/
def lasts (plan : Plan) (id queries : Nat) : Bool :=
  (List.range queries).all fun n => (plan.query id n).isSome

theorem tallyAlone_eq_some_iff {tally : WorkerOutcome} :
    plan.tallyAlone c id n = some tally ↔ plan.lasts id n = true ∧ tally =
      ⟨id, n, (List.range n).countP (plan.isAnswered c id),
        (List.range n).countP (plan.isRefused c id), false⟩ := by
  induction n generalizing tally with
  | zero => simp [tallyAlone, lasts, WorkerOutcome.start, eq_comm]
  | succ n ih =>
    have hlasts : plan.lasts id (n + 1) = (plan.lasts id n && (plan.query id n).isSome) := by
      simp [lasts, List.range_succ]
    rw [tallyAlone, hlasts, List.range_succ, List.countP_append, List.countP_append]
    cases hq : plan.query id n with
    | none => simp
    | some q =>
      cases ht : plan.tallyAlone c id n with
      | none =>
        -- alone the worker is lost already, so the plan has not lasted
        have hnot : ¬plan.lasts id n = true := by
          intro h
          cases ht.symm.trans (ih.mpr ⟨h, rfl⟩)
        simp [hnot]
      | some before =>
        obtain ⟨hbefore, rfl⟩ := ih.mp ht
        cases hr : c.search q with
        | ok hits =>
          simp [hbefore, hr, hq, isAnswered, isRefused, Except.isOk, Except.toBool,
            WorkerOutcome.recordSuccess, eq_comm]
        | error f =>
          simp [hbefore, hr, hq, isAnswered, isRefused, Except.isOk, Except.toBool,
            WorkerOutcome.recordError, eq_comm]

theorem tallyAlone_eq_none_of_le {m : Nat} (h : plan.tallyAlone c id n = none) (hnm : n ≤ m) :
    plan.tallyAlone c id m = none := by
  induction hnm with
  | refl => exact h
  | step _ ih => simp [tallyAlone, ih]

/-- As long as a plan lasts every query is answered or fails. -/
theorem countP_add_countP_of_lasts (h : plan.lasts id n = true) :
    (List.range n).countP (plan.isAnswered c id) + (List.range n).countP (plan.isRefused c id)
      = n := by
  have hrefused : (List.range n).countP (plan.isRefused c id)
      = (List.range n).countP fun k => !plan.isAnswered c id k := by
    apply List.countP_congr
    intro k hk
    obtain ⟨q, hq⟩ := Option.isSome_iff_exists.mp (List.all_eq_true.mp h k hk)
    simp [isAnswered, isRefused, hq]
  have hlength := List.length_eq_countP_add_countP (plan.isAnswered c id) (l := List.range n)
  rw [hrefused]
  simpa using hlength.symm

end Plan

/-! ### A worker of a pool -/

namespace Worker

/-- How far a worker can be in a stage, and whether it is marked as stopped there. -/
inductive Stands (plan : Plan) (queries : Nat) (cancelled : Bool) (id : Nat) :
    Stage → Nat → Bool → Prop
  | checking {k : Nat} (hk : k ≤ queries) : Stands plan queries cancelled id .checking k false
  | asking {k : Nat} (hk : k < queries) : Stands plan queries cancelled id .asking k false
  | searching {k : Nat} {q : Query} (hk : k < queries) (hq : plan.query id k = some q) :
      Stands plan queries cancelled id (.searching q) k false
  | finished : Stands plan queries cancelled id .finished queries false
  | stopped {k : Nat} (hk : k < queries) (hc : cancelled = true) :
      Stands plan queries cancelled id .finished k true
  | lost {k : Nat} (hk : k < queries) (hq : plan.query id k = none) :
      Stands plan queries cancelled id .lost k false

/-- The worker has the tally that it would have alone after as many queries. -/
structure Sound (c : Catalog) (plan : Plan) (queries : Nat) (cancelled : Bool) (id : Nat)
    (w : Worker) : Prop where
  tally_eq : plan.tallyAlone c id w.index = some { w.outcome with cancelled := false }
  stands : Stands plan queries cancelled id w.stage w.index w.outcome.cancelled

variable {w : Worker} {m : Move} {stage : Stage} {mark : Bool}

theorem Stands.of_cancelled {cancelled' : Bool}
    (h : Stands plan queries cancelled id stage n mark)
    (hc : cancelled = true → cancelled' = true) :
    Stands plan queries cancelled' id stage n mark := by
  cases h with
  | checking hk => exact .checking hk
  | asking hk => exact .asking hk
  | searching hk hq => exact .searching hk hq
  | finished => exact .finished
  | stopped hk h => exact .stopped hk (hc h)
  | lost hk hq => exact .lost hk hq

theorem Stands.of_checking (h : Stands plan queries cancelled id .checking n mark) :
    n ≤ queries ∧ mark = false := by
  cases h with
  | checking hk => exact ⟨hk, rfl⟩

theorem Stands.of_asking (h : Stands plan queries cancelled id .asking n mark) :
    n < queries ∧ mark = false := by
  cases h with
  | asking hk => exact ⟨hk, rfl⟩

theorem Stands.of_searching {q : Query}
    (h : Stands plan queries cancelled id (.searching q) n mark) :
    n < queries ∧ mark = false ∧ plan.query id n = some q := by
  cases h with
  | searching hk hq => exact ⟨hk, rfl, hq⟩

theorem Sound.start (c : Catalog) (plan : Plan) (queries : Nat) (cancelled : Bool) (id : Nat) :
    Sound c plan queries cancelled id (.start id) :=
  ⟨rfl, .checking (Nat.zero_le queries)⟩

theorem Sound.workerId_eq (h : Sound c plan queries cancelled id w) :
    w.outcome.workerId = id :=
  congrArg WorkerOutcome.workerId (Plan.tallyAlone_eq_some_iff.mp h.tally_eq).2

theorem Sound.queriesRun_eq (h : Sound c plan queries cancelled id w) :
    w.outcome.queriesRun = w.index :=
  congrArg WorkerOutcome.queriesRun (Plan.tallyAlone_eq_some_iff.mp h.tally_eq).2

/-- A worker that is not marked as stopped. -/
theorem Sound.of_unmarked
    (htally : plan.tallyAlone c id w.index = some { w.outcome with cancelled := false })
    (hmark : w.outcome.cancelled = false)
    (hstands : Stands plan queries cancelled id w.stage w.index false) :
    Sound c plan queries cancelled id w := by
  refine ⟨htally, ?_⟩
  rw [hmark]
  exact hstands

/-- Every move keeps a worker at the tally that it would have alone. -/
theorem Sound.moved (h : Sound c plan queries cancelled id w)
    (hm : w.Moves c plan queries cancelled m) : Sound c plan queries cancelled id m.worker := by
  have hid := h.workerId_eq
  have hstands := h.stands
  cases hm with
  | finish hs hi =>
    rw [hs] at hstands
    obtain ⟨hn, hmark⟩ := hstands.of_checking
    have hend : w.index = queries := Nat.le_antisymm hn hi
    exact .of_unmarked h.tally_eq hmark (hend ▸ .finished)
  | stop hs hi hc => exact ⟨h.tally_eq, .stopped hi hc⟩
  | check hs hi hc =>
    rw [hs] at hstands
    obtain ⟨-, hmark⟩ := hstands.of_checking
    exact .of_unmarked h.tally_eq hmark (.asking hi)
  | @ask q hs hq =>
    rw [hs] at hstands
    obtain ⟨hn, hmark⟩ := hstands.of_asking
    exact .of_unmarked h.tally_eq hmark (.searching hn (hid ▸ hq))
  | lose hs hq =>
    rw [hs] at hstands
    obtain ⟨hn, hmark⟩ := hstands.of_asking
    exact .of_unmarked h.tally_eq hmark (.lost hn (hid ▸ hq))
  -- an answered and a failed query are counted alike, and the worker goes on to the next check
  | answer hs hr =>
    rw [hs] at hstands
    obtain ⟨hn, hmark, hq⟩ := hstands.of_searching
    refine .of_unmarked ?_ hmark (.checking hn)
    simp [Plan.tallyAlone, h.tally_eq, hq, hr, WorkerOutcome.recordSuccess]
  | fail hs hr =>
    rw [hs] at hstands
    obtain ⟨hn, hmark, hq⟩ := hstands.of_searching
    refine .of_unmarked ?_ hmark (.checking hn)
    simp [Plan.tallyAlone, h.tally_eq, hq, hr, WorkerOutcome.recordError]

end Worker

/-! ### All workers -/

namespace Pool

variable {p : Pool} {i : Nat} {w : Worker} {m : Worker.Move}

/-- Every worker of the pool has the tally that it would have alone. -/
structure Sound (c : Catalog) (plan : Plan) (workerCount queries : Nat) (p : Pool) : Prop where
  length_eq : p.workers.length = workerCount
  queries_eq : p.queries = queries
  worker : ∀ (i : Nat) (w : Worker), p.workers[i]? = some w →
    w.Sound c plan queries p.cancelled i

theorem Sound.start (c : Catalog) (plan : Plan) (workerCount queries : Nat) (cancelled : Bool) :
    Sound c plan workerCount queries (.start workerCount queries cancelled) := by
  constructor
  case length_eq => simp [Pool.start]
  case queries_eq => rfl
  case worker =>
    intro i w hw
    simp only [Pool.start, List.getElem?_map, Option.map_eq_some_iff] at hw
    obtain ⟨j, hj, rfl⟩ := hw
    rw [List.getElem?_range (by simpa using (List.getElem?_eq_some_iff.mp hj).1)] at hj
    cases hj
    exact .start c plan queries cancelled i

theorem Sound.moved (h : Sound c plan workerCount queries p) (hw : p.workers[i]? = some w)
    (hm : w.Moves c plan p.queries p.cancelled m) :
    Sound c plan workerCount queries (p.moved i m) := by
  have hmark : p.cancelled = true → (p.moved i m).cancelled = true := by
    intro hc
    simp [Pool.moved, hc]
  constructor
  case length_eq => simpa [Pool.moved] using h.length_eq
  case queries_eq => exact h.queries_eq
  case worker =>
    intro j w' hw'
    by_cases hij : i = j
    · subst hij
      rw [h.queries_eq] at hm
      have hlt : i < p.workers.length := (List.getElem?_eq_some_iff.mp hw).1
      simp only [Pool.moved, List.getElem?_set_self hlt, Option.some.injEq] at hw'
      subst hw'
      have hsound := (h.worker i w hw).moved hm
      exact ⟨hsound.tally_eq, hsound.stands.of_cancelled hmark⟩
    · simp only [Pool.moved, List.getElem?_set_ne hij] at hw'
      have hsound := h.worker j w' hw'
      exact ⟨hsound.tally_eq, hsound.stands.of_cancelled hmark⟩

theorem Sound.act (h : Sound c plan workerCount queries p) (a : Act) :
    Sound c plan workerCount queries (p.act c plan a) := by
  refine act_cases h ?_ ?_
  · exact fun i w m _ hw hm => h.moved hw hm
  · refine ⟨h.length_eq, h.queries_eq, fun i w hw => ?_⟩
    have hsound := h.worker i w hw
    exact ⟨hsound.tally_eq, hsound.stands.of_cancelled fun _ => rfl⟩

theorem Sound.after (h : Sound c plan workerCount queries p) (acts : List Act) :
    Sound c plan workerCount queries (p.after c plan acts) :=
  after_of_act (fun _ a hp => hp.act a) h

end Pool

end EmojiCatalog
