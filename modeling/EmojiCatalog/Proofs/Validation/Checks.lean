import EmojiCatalog.Proofs.Pool.Undisturbed
import EmojiCatalog.Proofs.Validation.Streaming
/-!
The five checks.

Each check is known as a whole: what it finds, and what it leaves of the processor.  Three of them
only search, and a search without filters does not fail; they change nothing but the log
(`checkSearch_eq`, `checkPerformance_eq`, `checkPool_eq`).  The statistics are in order whenever
they were counted (`checkStatistics_eq`).  So it is the stream that decides
(`checkStream_of_cancelled`, `checkStream_of_flaw`, `checkStream_of_sound`), or breaks the run off
if it cannot be started (`checkStream_of_not_canStream`).
-/

namespace EmojiCatalog

open Processor (Solo Counts)

/-- The number of hits of a query, none if it fails. -/
def Catalog.hitCount (c : Catalog) (q : Query) : Nat :=
  match c.search q with
  | .ok hits => hits.length
  | .error _ => 0

/-- The processors differ in their logs at most. -/
def Processor.SameButLog {α : Type} (p q : Processor α) : Prop :=
  ∃ events, q = { p with events := events }

theorem Processor.SameButLog.trans {α : Type} {p q r : Processor α} (h : p.SameButLog q)
    (h' : q.SameButLog r) : p.SameButLog r := by
  obtain ⟨events, rfl⟩ := h
  obtain ⟨events', rfl⟩ := h'
  exact ⟨events', rfl⟩

theorem Processor.SameButLog.counts {α : Type} {p q : Processor α} (h : p.SameButLog q) :
    Counts p [] q := by
  obtain ⟨events, rfl⟩ := h
  exact ⟨rfl, rfl⟩

namespace Validation

variable {α : Type} {v : Validation α}

/-! ### Searches -/

/-- The search checks on a catalog, whether they pass or not. -/
def searchChecks (c : Catalog) (queries : List (String × Nat)) : List SearchCheck :=
  queries.map fun q => ⟨q.1, q.2, c.hitCount (checkedQuery q.1)⟩

theorem searchAll_eq (p : Processor α) (queries : List (String × Nat)) :
    ∃ q, p.SameButLog q ∧ searchAll p queries = (.ok (searchChecks p.catalog queries), q) := by
  induction queries generalizing p with
  | nil => exact ⟨p, ⟨p.events, rfl⟩, rfl⟩
  | cons first rest ih =>
    obtain ⟨query, expected⟩ := first
    obtain ⟨hits, h⟩ : ∃ hits, p.catalog.search (checkedQuery query) = .ok hits :=
      p.catalog.exists_search_unfiltered query 20
    have hcount : p.catalog.hitCount (checkedQuery query) = hits.length := by
      rw [Catalog.hitCount, h]
    obtain ⟨q, hq, hrest⟩ := ih ((p.search (checkedQuery query)).2.note
      [SearchCheck.event ⟨query, expected, hits.length⟩])
    refine ⟨q, Processor.SameButLog.trans ⟨_, rfl⟩ hq, ?_⟩
    simp only [searchAll, Processor.search, h] at hrest ⊢
    rw [hrest]
    show (Except.ok (⟨query, expected, hits.length⟩ :: searchChecks p.catalog rest), q) = _
    rw [← hcount]
    rfl

/-- The search check only writes down what it finds. -/
theorem checkSearch_eq (v : Validation α) :
    ∃ q, v.processor.SameButLog q ∧ checkSearch v = (none, { v with
      processor := q
      findings := { v.findings with
        searches := some (searchChecks v.processor.catalog expectations) } }) := by
  obtain ⟨q, hq, h⟩ := searchAll_eq (v.announce "Testing search").processor expectations
  refine ⟨q, Processor.SameButLog.trans ⟨_, rfl⟩ hq, ?_⟩
  simp only [checkSearch, h]
  rfl

theorem counts_checkSearch (v : Validation α) :
    Counts v.processor [] (checkSearch v).2.processor := by
  obtain ⟨q, hq, hcheck⟩ := checkSearch_eq v
  rw [hcheck]
  exact hq.counts

/-! ### Many searches -/

theorem searchRepeatedly_eq (p : Processor α) (numbers : List Nat) :
    ∃ q, p.SameButLog q ∧ searchRepeatedly p numbers = (.ok (), q) := by
  induction numbers generalizing p with
  | nil => exact ⟨p, ⟨p.events, rfl⟩, rfl⟩
  | cons i rest ih =>
    obtain ⟨hits, h⟩ : ∃ hits, p.catalog.search (repeatedQuery i) = .ok hits :=
      p.catalog.exists_search_unfiltered _ 10
    obtain ⟨q, hq, hrest⟩ := ih (p.search (repeatedQuery i)).2
    refine ⟨q, Processor.SameButLog.trans ⟨_, rfl⟩ hq, ?_⟩
    simp only [searchRepeatedly, Processor.search, h] at hrest ⊢
    exact hrest

theorem checkPerformance_eq (v : Validation α) :
    ∃ q, v.processor.SameButLog q ∧ checkPerformance v = (none, { v with
      processor := q
      findings := { v.findings with
        performance := some (v.readings.searchTime, v.readings.memoryGrowth) } }) := by
  obtain ⟨q, hq, h⟩ :=
    searchRepeatedly_eq (v.announce "Testing search performance").processor (List.range searchCount)
  refine ⟨q.note [performanceEvent v.readings.searchTime,
    Processor.initialEvent .builtin q.config], ?_, ?_⟩
  · exact .trans (.trans ⟨_, rfl⟩ hq) ⟨_, rfl⟩
  · simp only [checkPerformance, h]
    rfl

theorem counts_checkPerformance (v : Validation α) :
    Counts v.processor [] (checkPerformance v).2.processor := by
  obtain ⟨q, hq, hcheck⟩ := checkPerformance_eq v
  rw [hcheck]
  exact hq.counts

/-! ### The pool -/

theorem checkPool_eq (v : Validation α) :
    let outcome := (Pool.run v.processor.catalog (.perWorker v.processor.config.queryLimit)
      workerCount queriesPerWorker v.isCancelled v.readings.workerSteps).outcome
    ∃ q, v.processor.SameButLog q ∧ checkPool v = (poolFault? outcome, { v with
      processor := q
      findings := { v.findings with pool := some (.after outcome v.readings.poolTime) } }) :=
  ⟨_, ⟨_, rfl⟩, rfl⟩

theorem counts_checkPool (v : Validation α) :
    Counts v.processor [] (checkPool v).2.processor := by
  obtain ⟨q, hq, hcheck⟩ := checkPool_eq v
  rw [hcheck]
  exact hq.counts

/-- A pool in which every worker got all of its queries answered is in order. -/
theorem poolFault?_allAnswered (workerCount queries : Nat) :
    poolFault? (.allAnswered workerCount queries) = none := by
  have hbalance : workerCount * queries + 0 = workerCount * queries := Nat.add_zero _
  simp only [poolFault?, PoolOutcome.allAnswered, Bool.false_eq_true, if_false, Nat.lt_irrefl,
    hbalance, ne_eq, not_true_eq_false]

/-! ### Statistics -/

/-- Statistics that verify are in order. -/
theorem checkStatistics_eq (hmetrics : v.processor.metrics.cancelsRoot = false)
    (h : v.processor.tally.verify = .ok ()) :
    ∃ stats q, stats.tally = v.processor.tally ∧ v.processor.SameButLog q ∧
      checkStatistics v = (none, { v with
        processor := q
        findings := { v.findings with statistics := some stats } }) := by
  have hp : ((v.announce "Testing statistics").processor.stats
      (v.announce "Testing statistics").readings.now).2
        = (v.announce "Testing statistics").processor := by
    show (if v.processor.metrics.cancelsRoot then _ else _) = _
    rw [hmetrics, if_neg Bool.false_ne_true]
  refine ⟨((v.announce "Testing statistics").processor.stats v.readings.now).1,
    (v.announce "Testing statistics").processor.note [⟨.info, "Statistics check passed",
      [("total", .nat v.processor.tally.total), Log.succeeded]⟩], rfl, ⟨_, rfl⟩, ?_⟩
  unfold checkStatistics
  dsimp only
  rw [hp]
  split
  next f hf => cases h.symm.trans hf
  next => rfl

/-- Whatever the check finds, it counts nothing. -/
theorem counts_checkStatistics (v : Validation α) :
    Counts v.processor [] (checkStatistics v).2.processor := by
  let p := (v.announce "Testing statistics").processor
  have hp : Counts v.processor [] (p.stats v.readings.now).2 := by
    show Counts _ _ (if v.processor.metrics.cancelsRoot then _ else p)
    split
    · exact ⟨rfl, rfl⟩
    · exact ⟨rfl, rfl⟩
  unfold checkStatistics
  dsimp only
  split
  · exact hp
  · exact ⟨hp.settings_eq, hp.tally_eq⟩

/-! ### The stream -/

/-- The processor when the stream check has started its run. -/
def streaming (v : Validation α) : Processor α :=
  (v.announce "Testing stream processing").processor.startRun Tokens.root

/-- What the stream check takes of its run, and the processor after that. -/
def takings (v : Validation α) : Except CaseFault Nat × Processor α :=
  takeAll (v.processor.catalog.entries.length + 2) 0 v.readings.pace v.streaming
    v.processor.runs.length

/-- The processor when the producer has gone on without its consumer. -/
def abandoned (v : Validation α) : Processor α :=
  (v.takings.2.dropRun v.processor.runs.length).settle

/-- A stream that cannot be started breaks the run off, whether the token is cancelled or not. -/
theorem checkStream_of_not_canStream (h : v.processor.config.canStream = false) :
    ∃ q, v.processor.SameButLog q ∧
      checkStream v = (none, { v with processor := q, hasBrokenOff := true }) := by
  have hstart : (v.announce "Testing stream processing").processor.start? Tokens.root = none := by
    rw [Processor.start?]
    exact if_neg (ne_true_of_eq_false h)
  refine ⟨(v.announce "Testing stream processing").processor, ⟨_, rfl⟩, ?_⟩
  simp only [checkStream, hstart]
  rfl

section Started

variable (hstream : v.processor.config.canStream = true)
include hstream

/-- A stream that can be started has its records checked. -/
theorem checkStream_of_canStream :
    checkStream v = checkRecords v.processor.runs.length { v with processor := v.streaming } := by
  have hstart :
      (v.announce "Testing stream processing").processor.start? Tokens.root = some v.streaming := by
    rw [Processor.start?]
    exact if_pos hstream
  simp only [checkStream, hstart]
  rfl

theorem checkStream_of_error {f : CaseFault} (h : v.takings.1 = .error f) :
    checkStream v = (some f, { v with processor := v.abandoned }) := by
  rw [checkStream_of_canStream hstream]
  unfold checkRecords
  dsimp only
  split
  next f' hf =>
    obtain rfl : f = f' := Except.error.inj (h.symm.trans hf)
    rfl
  next processed hok => cases h.symm.trans hok

theorem checkStream_of_ok {processed : Nat} (h : v.takings.1 = .ok processed) :
    ∃ q, v.abandoned.SameButLog q ∧ checkStream v = (none, { v with
      processor := q
      findings := { v.findings with stream := some (processed, v.readings.streamTime) } }) := by
  refine ⟨v.abandoned.note [⟨.info, "Stream check completed",
    [("processed", .nat processed), Log.succeeded]⟩], ⟨_, rfl⟩, ?_⟩
  rw [checkStream_of_canStream hstream]
  unfold checkRecords
  dsimp only
  split
  next f hf => cases h.symm.trans hf
  next processed' hok =>
    obtain rfl : processed = processed' := Except.ok.inj (h.symm.trans hok)
    rfl

end Started

section

variable (hruns : v.processor.runs = [])
include hruns

theorem takings_eq :
    v.takings
      = takeAll (v.processor.catalog.entries.length + 2) 0 v.readings.pace v.streaming 0 := by
  rw [takings, hruns]
  rfl

theorem abandoned_eq : v.abandoned = (v.takings.2.dropRun 0).settle := by
  rw [abandoned, hruns]
  rfl

/-- Under a cancelled token the check finds the cancellation. -/
theorem checkStream_of_cancelled (hstream : v.processor.config.canStream = true)
    (hc : v.isCancelled = true) :
    checkStream v = (some (.processor .cancelled), { v with processor := v.abandoned }) := by
  obtain ⟨t, ht, hidle, hdone, -⟩ :=
    (v.announce "Testing stream processing").processor.solo_startRun Tokens.root hruns
  have hcancelled : v.streaming.isCancelled t.run = true := by
    rw [Processor.isCancelled, ht.token_eq]
    exact (Tokens.isCancelled_child_fresh v.processor.tokens Tokens.root).trans hc
  have hnext : (v.streaming.nextAt v.readings.pace 0).1 = some (.error .cancelled) :=
    ht.nextAt_of_cancelled hidle hdone hcancelled _
  apply checkStream_of_error hstream
  rw [takings_eq hruns]
  exact congrArg Prod.fst (takeAll_of_error hnext)

/-- Whatever is cancelled, what the check takes is a history of its run, and if it finds no fault
this has completed. -/
theorem solo_takings :
    ∃ t, Solo v.streaming v.processor.tokens.fresh v.takings.2 t ∧
      ∀ n, v.takings.1 = .ok n → t.run.stage = .finished .completed := by
  obtain ⟨t, ht, hidle, -, hanswers⟩ :=
    (v.announce "Testing stream processing").processor.solo_startRun Tokens.root hruns
  rw [takings_eq hruns]
  exact takeAll_of_solo [] ht hidle hanswers (Nat.zero_le _)
    (Nat.lt_add_left _ (Nat.lt_add_of_pos_right (Nat.zero_lt_succ 1))) _

/-- Whatever is cancelled, the check has counted some categories, and if it goes on without a fault
it has counted the categories of all entries. -/
theorem counts_checkStream :
    ∃ names, Counts v.processor names (checkStream v).2.processor ∧
      ((checkStream v).1 = none → (checkStream v).2.hasBrokenOff = false →
        names = v.processor.catalog.entries.map (·.category)) := by
  cases hstream : v.processor.config.canStream with
  | false =>
    obtain ⟨q, hq, hcheck⟩ := checkStream_of_not_canStream hstream
    rw [hcheck]
    exact ⟨[], hq.counts, fun _ h => by cases h⟩
  | true =>
    obtain ⟨t, ht, hcompleted⟩ := solo_takings hruns
    cases hout : v.takings.1 with
    | error f =>
      obtain ⟨names, hsettle⟩ := Processor.counts_settleWithin (v.takings.2.dropRun 0).work
        (v.takings.2.dropRun 0)
      have htaken : Counts v.processor t.counts (v.takings.2.dropRun 0) :=
        ⟨ht.settings_eq, ht.tally_eq⟩
      rw [checkStream_of_error hstream hout, abandoned_eq hruns]
      exact ⟨_, htaken.trans hsettle, fun h _ => by cases h⟩
    | ok processed =>
      have hstage := hcompleted processed hout
      obtain ⟨q, ⟨events, rfl⟩, hcheck⟩ := checkStream_of_ok hstream hout
      rw [hcheck, abandoned_eq hruns, ht.settle_dropRun hstage]
      exact ⟨_, ⟨ht.settings_eq, ht.tally_of_completed hstage⟩, fun _ _ => rfl⟩

section Undisturbed

variable (hquiet : v.processor.IsQuiet) (htokens : v.processor.tokens = .start false)
include hquiet htokens

/-- As long as nothing is cancelled, what the check takes is settled by the entries. -/
theorem takings_of_undisturbed :
    (∀ reason, v.processor.catalog.entries.findSome? Entry.flaw? = some reason →
      v.takings.1 = .error (.failed reason)) ∧
    (v.processor.catalog.entries.findSome? Entry.flaw? = none →
      v.takings.1 = .ok v.processor.catalog.entries.length ∧
        v.takings.2.tokens = v.streaming.tokens) := by
  have hreads : Processor.Reads v.streaming v.processor.tokens.fresh v.streaming 0 :=
    (v.announce "Testing stream processing").processor.reads_startRun Tokens.root hruns
  have hlive : v.streaming.tokens.isCancelled v.processor.tokens.fresh = false := by
    show (v.processor.tokens.child Tokens.root).isCancelled _ = false
    rw [Tokens.isCancelled_child_fresh, htokens]
    rfl
  have hquiet' : v.streaming.IsQuiet := hquiet
  obtain ⟨hflaw, hsound⟩ := takeAll_of_reads (n := v.processor.catalog.entries.length + 2)
    hquiet' hlive hreads (Nat.zero_le _)
    (Nat.lt_add_left _ (Nat.lt_add_of_pos_right (Nat.zero_lt_succ 1))) v.readings.pace
  rw [takings_eq hruns]
  exact ⟨hflaw, hsound⟩

/-- As long as nothing is cancelled, the check ends at the first entry with a flaw. -/
theorem checkStream_of_flaw (hstream : v.processor.config.canStream = true) {reason : String}
    (hflaw : v.processor.catalog.entries.findSome? Entry.flaw? = some reason) :
    checkStream v = (some (.failed reason), { v with processor := v.abandoned }) :=
  checkStream_of_error hstream ((takings_of_undisturbed hruns hquiet htokens).1 reason hflaw)

/-- As long as nothing is cancelled, the check gets through a catalog without flaws, and its run
leaves the root token alone. -/
theorem checkStream_of_sound (hstream : v.processor.config.canStream = true)
    (hsound : v.processor.catalog.entries.findSome? Entry.flaw? = none) :
    ∃ q : Processor α, q.tokens.isCancelled Tokens.root = false ∧ checkStream v = (none, { v with
      processor := q
      findings := { v.findings with
        stream := some (v.processor.catalog.entries.length, v.readings.streamTime) } }) := by
  obtain ⟨hout, hsame⟩ := (takings_of_undisturbed hruns hquiet htokens).2 hsound
  obtain ⟨t, ht, hcompleted⟩ := solo_takings hruns
  obtain ⟨q, ⟨events, rfl⟩, hcheck⟩ := checkStream_of_ok hstream hout
  refine ⟨_, ?_, hcheck⟩
  rw [abandoned_eq hruns, ht.settle_dropRun (hcompleted _ hout)]
  show v.takings.2.tokens.isCancelled Tokens.root = false
  rw [hsame]
  show (v.processor.tokens.child Tokens.root).isCancelled Tokens.root = false
  rw [htokens]
  rfl

end Undisturbed

end

end Validation

end EmojiCatalog
