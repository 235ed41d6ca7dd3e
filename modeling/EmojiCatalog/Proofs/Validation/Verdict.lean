import EmojiCatalog.Proofs.Catalog.Built
import EmojiCatalog.Proofs.TestCase.Summary
import EmojiCatalog.Proofs.Validation.Details
import EmojiCatalog.Proofs.Validation.Runs
/-!
The verdict of the suite.

The suite can be executed time and again; its processor keeps its statistics and the suite its
findings.  `Reached` says what it can be after some executions, whatever was cancelled in them.
Every execution that succeeded has counted the whole catalog (`counts_execute?`), so the statistics
after some successes in a row are known (`Reached.exists_names`).

If nothing is cancelled, the verdict depends on the entries of the catalog alone: the suite succeeds
exactly if every entry has an item and a category, and numbers of hits other than expected make no
difference (`suite_judges_catalog`).  But with a batch size for which no channel can be made the
suite breaks off, and there is no verdict (`execute?_eq_none`, `executeBatch?_eq_none`,
`oversized_reports_nothing`).
-/

namespace EmojiCatalog

open Json
open Processor (Counts)

namespace Validation

variable {α : Type} {budget : Option Duration} {caller : Token} {tokens : Tokens}
variable {v : Validation α}

/-! ### One execution -/

/-- There is a result exactly if there is an execution that has not broken off. -/
theorem execute?_eq_some_iff {e : Execution (Validation α)} :
    v.execute? budget caller tokens = some e ↔
      executeWithin budget caller tokens v = some e ∧ e.case.hasBrokenOff = false := by
  rw [execute?, Option.filter_eq_some_iff, Bool.not_eq_true']

/-- With a stream that cannot be started every execution breaks off. -/
theorem hasBrokenOff_of_executeWithin (hstream : v.processor.config.canStream = false)
    {e : Execution (Validation α)} (he : executeWithin budget caller tokens v = some e) :
    e.case.hasBrokenOff = true := by
  obtain ⟨f, hf, -⟩ | ⟨-, -, -, hcase, -⟩ := executeWithin_cases he
  · cases hf
  · rw [hcase]
    exact hasBrokenOff_run hstream budget _ _

/-- So there is no result. -/
theorem execute?_eq_none (hstream : v.processor.config.canStream = false)
    (budget : Option Duration) (caller : Token) (tokens : Tokens) :
    v.execute? budget caller tokens = none := by
  rw [Option.eq_none_iff_forall_ne_some]
  intro e he
  obtain ⟨he, hgoing⟩ := execute?_eq_some_iff.mp he
  rw [hasBrokenOff_of_executeWithin hstream he] at hgoing
  cases hgoing

/-- A batch has no result either when the stream of one of its suites cannot be started. -/
theorem executeBatch?_eq_none {b : Batch (Validation α)} (hv : v ∈ b.cases)
    (hstream : v.processor.config.canStream = false) (tokens : Tokens) :
    executeBatch? b tokens = none := by
  obtain ⟨r, hr, -, es, -, hcases, hexecuted⟩ := b.execute_executes tokens
  obtain ⟨i, hi, rfl⟩ := List.getElem_of_mem hv
  have hi' : i < es.length := hexecuted.length_eq ▸ hi
  obtain ⟨caller, ts, e, he, -, hcase⟩ := hexecuted.get hi hi'
  have hbroken : (!es[i].case.hasBrokenOff) = false := by
    have hleft : e.case = es[i].case := hcase
    rw [← hleft, hasBrokenOff_of_executeWithin hstream he]
    rfl
  have hnot : r.batch.cases.all (!·.hasBrokenOff) = false := by
    rw [hcases, List.all_map, List.all_eq_false]
    exact ⟨es[i], List.getElem_mem hi', ne_true_of_eq_false hbroken⟩
  rw [executeBatch?, hr, Option.filter_some, hnot]
  rfl

/-- How the run of a suite ends, its execution reports. -/
theorem exists_execution (budget : Option Duration) (caller : Token) (tokens : Tokens)
    {fault : Option CaseFault} {Q : Validation α → Prop}
    (hintime : tokens.isCancelled caller = false → ∀ d ∈ budget, 0 < d.nanos)
    (hrun : ∀ own, Yields budget own (tokens.isCancelled caller) fault Q (run v)) :
    ∃ e, v.execute? budget caller tokens = some e ∧ e.report.status = verdict fault ∧
      e.report.fault = fault ∧ e.report.details = e.case.findings.details ∧ Q e.case := by
  let r := Ran.afterSetup budget caller tokens v
  -- under a budget the run has a token of its own, which is cancelled with that of the caller
  have hown : (Progress.runToken budget caller tokens).2.isCancelled
      (Progress.runToken budget caller tokens).1 = tokens.isCancelled caller := by
    cases budget with
    | none => rfl
    | some d => exact Tokens.isCancelled_child_fresh tokens caller
  have hunused : tokens.isCancelled caller = false →
      Activity.isUsedUp Duration.zero budget = false := by
    intro hlive
    cases budget with
    | none => rfl
    | some d => exact decide_eq_false (Nat.not_le.mpr (hintime hlive d rfl))
  obtain ⟨hend, hgoing, hstate⟩ := hrun _
    { state := v, tokens := (Progress.runToken budget caller tokens).2 } hown hunused
  have hreturned : r.how = .returned fault := hend
  refine ⟨.afterRun tokens v r fault, execute?_eq_some_iff.mpr ⟨?_, hgoing⟩, rfl, rfl, rfl, hstate⟩
  rw [executeWithin_eq_map rfl]
  show (r.fault? budget).map _ = _
  rw [Ran.fault?_of_returned hreturned]
  rfl

/-- Only a run that returned has no fault. -/
theorem how_of_fault?_eq_none {r : Ran (Validation α)} (h : r.fault? budget = some none) :
    r.how = .returned none := by
  cases hhow : r.how with
  | returned fault =>
    rw [Ran.fault?_of_returned hhow] at h
    rw [Option.some.inj h]
  | expired | never =>
    cases budget <;> simp only [Ran.fault?, hhow, reduceCtorEq, Option.some.injEq] at h

/-- Whatever is cancelled, an execution has counted some categories, and those of all entries if it
succeeds. -/
theorem counts_execute? {e : Execution (Validation α)}
    (he : v.execute? budget caller tokens = some e) :
    ∃ names, Counts v.processor names e.case.processor ∧
      (e.report.status = .success → names = v.processor.catalog.entries.map (·.category)) := by
  obtain ⟨he, hgoing⟩ := execute?_eq_some_iff.mp he
  obtain ⟨f, hf, -⟩ | ⟨-, hfault, hstatus, hcase, -⟩ := executeWithin_cases he
  · cases hf
  · obtain ⟨names, hcounts, hnone⟩ := accounts_run v budget
      (Progress.runToken budget caller tokens).1
      { state := v, tokens := (Progress.runToken budget caller tokens).2 } rfl
    rw [hcase] at hgoing ⊢
    refine ⟨names, hcounts, fun hsuccess => hnone ?_ hgoing⟩
    have hno : e.report.fault = none := by
      rw [hstatus] at hsuccess
      exact Option.not_isSome_iff_eq_none.mp fun hsome =>
        (isSome_iff_verdict_ne_success _).mp hsome hsuccess
    rw [hno] at hfault
    exact how_of_fault?_eq_none hfault

/-! ### One execution after another -/

/-- What a suite can be after executions with the given statuses.  It begins with a new processor,
and its readings, in which order others go on beside it among them, may change from one execution to
the next. -/
inductive Reached (c : Catalog) (config : Config) (payload : Payload α) (metrics : Metrics) :
    List Status → Validation α → Prop
  | new (readings : Readings) (events : Array Log.Event) :
      Reached c config payload metrics [] {
        processor := { Processor.ofCatalog c config payload metrics with events := events }
        readings := readings }
  | again {past : List Status} {v : Validation α} {budget : Option Duration} {caller : Token}
      {tokens : Tokens} {e : Execution (Validation α)} (readings : Readings)
      (h : Reached c config payload metrics past v)
      (he : v.execute? budget caller tokens = some e) :
      Reached c config payload metrics (past ++ [e.report.status]) { e.case with
        readings := readings }

section Reached

variable {c : Catalog} {config : Config} {payload : Payload α} {metrics : Metrics}
variable {past : List Status}

theorem Reached.settings_eq (h : Reached c config payload metrics past v) :
    v.processor.settings = (c, config, payload, metrics) := by
  induction h with
  | new readings events => rfl
  | again readings h he ih =>
    obtain ⟨names, hcounts, -⟩ := counts_execute? he
    exact hcounts.settings_eq.trans ih

theorem Reached.catalog_eq (h : Reached c config payload metrics past v) :
    v.processor.catalog = c :=
  congrArg (·.1) h.settings_eq

theorem Reached.config_eq (h : Reached c config payload metrics past v) :
    v.processor.config = config :=
  congrArg (·.2.1) h.settings_eq

theorem Reached.hasBrokenOff_eq (h : Reached c config payload metrics past v) :
    v.hasBrokenOff = false := by
  cases h with
  | new readings events => rfl
  | again readings h he => exact (execute?_eq_some_iff.mp he).2

/-- The statistics are those of the categories that all executions have counted, and each success
has counted the whole catalog. -/
theorem Reached.exists_names (h : Reached c config payload metrics past v) :
    ∃ names, v.processor.tally = .ofNames names ∧
      ∀ m, past = List.replicate m .success → names.length = m * c.entries.length := by
  induction h with
  | new readings events =>
    refine ⟨[], rfl, fun m hm => ?_⟩
    obtain rfl : m = 0 := by
      have hlength := congrArg List.length hm
      rw [List.length_replicate] at hlength
      exact hlength.symm
    rw [Nat.zero_mul]
    rfl
  | @again past v budget caller tokens e readings h he ih =>
    obtain ⟨names, htally, hlength⟩ := ih
    obtain ⟨more, hcounts, hmore⟩ := counts_execute? he
    refine ⟨names ++ more, hcounts.tally_ofNames htally, fun m hm => ?_⟩
    cases m with
    | zero => exact absurd hm (List.append_ne_nil_of_right_ne_nil _ (List.cons_ne_nil _ _))
    | succ m =>
      -- the last execution succeeded, and so did those before it
      rw [List.replicate_succ'] at hm
      obtain ⟨hpast, hlast⟩ := List.append_inj' hm rfl
      rw [List.length_append, hlength m hpast, hmore (List.cons.inj hlast).1, h.catalog_eq,
        List.length_map, Nat.succ_mul]

theorem Reached.findings_eq (h : Reached c config payload metrics [] v) : v.findings = {} := by
  generalize hpast : ([] : List Status) = past at h
  cases h with
  | new readings events => rfl
  | again readings h he =>
    exact absurd hpast.symm (List.append_ne_nil_of_right_ne_nil _ (List.cons_ne_nil _ _))

end Reached

/-! ### Entries -/

/-- Whether an entry has an item and a category, neither of them empty. -/
def IsNamed (x : Entry) : Prop := x.item ≠ "" ∧ x.category ≠ ""

theorem flaw?_eq_none_iff {x : Entry} : x.flaw? = none ↔ IsNamed x := by
  rw [Entry.flaw?, IsNamed]
  by_cases hitem : x.item = ""
  · simp [hitem]
  · by_cases hcategory : x.category = ""
    · simp [hitem, hcategory]
    · simp [hitem, hcategory]

/-- The reason that is given for an entry with a flaw. -/
def reasonOf (x : Entry) : String :=
  if x.item = "" then "missing item in processed record"
  else "missing category in processed record"

theorem flaw?_eq_reasonOf {x : Entry} (h : ¬IsNamed x) : x.flaw? = some (reasonOf x) := by
  rw [Entry.flaw?, reasonOf]
  split
  next => rfl
  next hitem =>
    have hcategory : x.category = "" := by
      by_contra hcategory
      exact h ⟨hitem, hcategory⟩
    rw [if_pos hcategory]

theorem findSome?_flaw?_eq_none_iff {entries : List Entry} :
    entries.findSome? Entry.flaw? = none ↔ ∀ x ∈ entries, IsNamed x := by
  rw [List.findSome?_eq_none_iff]
  exact forall_congr' fun x => imp_congr_right fun _ => flaw?_eq_none_iff

/-- The first entry with a flaw decides. -/
theorem findSome?_flaw?_of_first {before after : List Entry} {x : Entry}
    (hbefore : ∀ y ∈ before, IsNamed y) (hx : ¬IsNamed x) :
    (before ++ x :: after).findSome? Entry.flaw? = some (reasonOf x) := by
  rw [List.findSome?_append, findSome?_flaw?_eq_none_iff.mpr hbefore, List.findSome?_cons,
    flaw?_eq_reasonOf hx]
  rfl

/-! ### The verdict -/

/-- The details of a success over a catalog: a record for every entry was processed, and five
workers put a hundred queries, of which none failed. -/
structure RecordsSuccess (c : Catalog) (d : Details) : Prop where
  processed_count : d.recorded? "stream_processing" "processed_count" = some (.whole c.size)
  workers : ∃ workers, d.recorded? "concurrent_processing" "workers" = some (.array workers) ∧
    workers.length = 5
  total_queries : d.recorded? "concurrent_processing" "total_queries" = some (.whole 100)
  total_errors : d.recorded? "concurrent_processing" "total_errors" = some (.whole 0)
  failed_workers : d.recorded? "concurrent_processing" "failed_workers" = some (.whole 0)

theorem Complete.recordsSuccess {c : Catalog} {total : Nat} {f : Findings}
    (h : Complete c total f) (hsize : c.size = c.entries.length) : RecordsSuccess c f.details := by
  obtain ⟨time, hstream⟩ := h.stream
  obtain ⟨poolTime, hpool⟩ := h.pool
  constructor
  case processed_count => rw [Findings.recorded?_processed_count hstream, hsize]
  case workers => exact ⟨_, Findings.recorded?_pool hpool "workers", rfl⟩
  all_goals exact Findings.recorded?_pool hpool _

section Reached

variable {c : Catalog} {config : Config} {payload : Payload α} {metrics : Metrics}
variable {past : List Status}

/-- An execution that stops at the stream reports the fault that it met.  Its search checks are
recorded, whether they pass or not, and if it is the first nothing else is. -/
theorem Reached.exists_stopped (hv : Reached c config payload metrics past v) (f : CaseFault)
    (budget : Option Duration) (caller : Token) (tokens : Tokens)
    (hintime : tokens.isCancelled caller = false → ∀ d ∈ budget, 0 < d.nanos)
    (hrun : ∀ own, Yields budget own (tokens.isCancelled caller) (some f)
      (fun w => w.findings = { v.findings with
        searches := some (searchChecks v.processor.catalog expectations) }) (run v)) :
    ∃ e, v.execute? budget caller tokens = some e ∧
      e.case.findings.searches = some (searchChecks c expectations) ∧ e.report.status = f.status ∧
      e.report.code = some f.code ∧ e.report.error = some f.message ∧
      (past = [] → e.report.details.keys = ["search_tests"]) := by
  obtain ⟨e, he, hstatus, hfault, hdetails, hfindings⟩ :=
    exists_execution budget caller tokens hintime hrun
  rw [hv.catalog_eq] at hfindings
  refine ⟨e, he, by rw [hfindings], hstatus, ?_, ?_, ?_⟩
  · rw [Report.code, hfault]
    rfl
  · rw [Report.error, hfault]
    rfl
  · rintro rfl
    rw [hdetails, hfindings, hv.findings_eq]
    rfl

/-- When nothing is cancelled and every entry is in order, the suite succeeds. -/
theorem Reached.exists_completed (hv : Reached c config payload metrics past v)
    (hstream : config.canStream = true) (hsize : c.size = c.entries.length)
    (hlive : tokens.isCancelled caller = false) (hquiet : v.processor.IsQuiet)
    (hmetrics : metrics.cancelsRoot = false)
    (hintime : ∀ d ∈ budget, 0 < d.nanos) (hnamed : ∀ x ∈ c.entries, IsNamed x) :
    ∃ e, v.execute? budget caller tokens = some e ∧
      e.case.findings.searches = some (searchChecks c expectations) ∧
      e.report.status = .success ∧ RecordsSuccess c e.report.details ∧
      ∀ m, past = List.replicate m .success →
        e.report.details.recorded? "statistics" "total" = some (.whole ((m + 1) * c.size)) := by
  have hmetrics' : v.processor.metrics.cancelsRoot = false := by
    have hsame : v.processor.metrics = metrics := congrArg (·.2.2.2) hv.settings_eq
    rw [hsame, hmetrics]
  have hsound : v.processor.catalog.entries.findSome? Entry.flaw? = none := by
    rw [hv.catalog_eq, findSome?_flaw?_eq_none_iff]
    exact hnamed
  have hstream' : v.processor.config.canStream = true := by
    rw [hv.config_eq, hstream]
  obtain ⟨names, htally, hnames⟩ := hv.exists_names
  obtain ⟨e, he, hstatus, -, hdetails, hcomplete⟩ :=
    exists_execution budget caller tokens (fun _ => hintime) fun own => by
      rw [hlive]
      exact yields_run_of_sound hv.hasBrokenOff_eq hstream' hquiet hmetrics' htally hsound
  rw [hv.catalog_eq] at hcomplete
  refine ⟨e, he, hcomplete.searches, hstatus, ?_, fun m hm => ?_⟩
  · rw [hdetails]
    exact hcomplete.recordsSuccess hsize
  · obtain ⟨stats, hstats, htotal⟩ := hcomplete.statistics
    rw [hdetails, Findings.recorded?_total hstats, htotal, hnames m hm, hsize, Nat.succ_mul]

end Reached

/-- **The verdict of the suite**, over a catalog that was built, and after any executions before.

If the channel of a stream can be made, the token is not cancelled, nothing is cancelled during the
run and the budget is not over at once, the suite reports.  It has succeeded exactly if every entry
has an item and a category.

* Of a success it records how many records it processed, and a pool in which nothing went wrong.
  After `m` successes and nothing else, the total of the statistics is `m + 1` times the size of the
  catalog.
* Otherwise it has failed with the code 3000, and the error names what is missing in the first entry
  with a flaw.

Under a cancelled token it is skipped with the code 1001.  The search checks are recorded in every
case, whether they pass or not; a first run that does not succeed records nothing else.  In which
order the producer of the stream and the workers of the pool go on is up to the readings of the
suite, and makes no difference.

If the channel cannot be made because the batch size is too great, there is no report. -/
theorem suite_judges_catalog {rows : List Row} {c : Catalog} (hbuild : Catalog.build rows = .ok c)
    {config : Config} {payload : Payload α} {metrics : Metrics} {past : List Status}
    {v : Validation α} (hv : Reached c config payload metrics past v) (budget : Option Duration)
    (caller : Token) (tokens : Tokens) :
    (config.canStream = true →
      (tokens.isCancelled caller = false → v.processor.IsQuiet → metrics.cancelsRoot = false →
        (∀ d ∈ budget, 0 < d.nanos) →
          ∃ e, v.execute? budget caller tokens = some e ∧
            e.case.findings.searches = some (searchChecks c expectations) ∧
            (e.report.status = .success ↔ ∀ x ∈ c.entries, IsNamed x) ∧
            (e.report.status = .success → RecordsSuccess c e.report.details ∧
              ∀ m, past = List.replicate m .success →
                e.report.details.recorded? "statistics" "total"
                  = some (.whole ((m + 1) * c.size))) ∧
            ∀ before x after, c.entries = before ++ x :: after → (∀ y ∈ before, IsNamed y) →
              ¬IsNamed x →
                e.report.status = .failed ∧ e.report.code = some 3000 ∧
                e.report.error = some ("Test failed: " ++ reasonOf x) ∧
                (past = [] → e.report.details.keys = ["search_tests"])) ∧
      (tokens.isCancelled caller = true →
        ∃ e, v.execute? budget caller tokens = some e ∧
          e.case.findings.searches = some (searchChecks c expectations) ∧
          e.report.status = .skipped ∧ e.report.code = some 1001 ∧
          (past = [] → e.report.details.keys = ["search_tests"]))) ∧
    (config.canStream = false → v.execute? budget caller tokens = none) := by
  have hgoing := hv.hasBrokenOff_eq
  refine ⟨fun hstream => ⟨fun hlive hquiet hmetrics hintime => ?_, fun hcancelled => ?_⟩,
    fun hstream => ?_⟩
  · by_cases hnamed : ∀ x ∈ c.entries, IsNamed x
    · obtain ⟨e, he, hsearches, hstatus, hrecords, htotal⟩ := hv.exists_completed hstream
        (Catalog.size_eq_of_build hbuild) hlive hquiet hmetrics hintime hnamed
      refine ⟨e, he, hsearches, iff_of_true hstatus hnamed, fun _ => ⟨hrecords, htotal⟩, ?_⟩
      intro before x after hentries _ hx
      refine absurd (hnamed x ?_) hx
      rw [hentries]
      exact List.mem_append_right _ List.mem_cons_self
    · obtain ⟨reason, hfirst⟩ : ∃ reason, c.entries.findSome? Entry.flaw? = some reason :=
        Option.ne_none_iff_exists'.mp fun hnone =>
          hnamed (findSome?_flaw?_eq_none_iff.mp hnone)
      have hflaw : v.processor.catalog.entries.findSome? Entry.flaw? = some reason := by
        rw [hv.catalog_eq, hfirst]
      rw [← hv.config_eq] at hstream
      obtain ⟨e, he, hsearches, hstatus, hcode, herror, hkeys⟩ :=
        hv.exists_stopped (.failed reason) budget caller tokens (fun _ => hintime) fun own => by
          rw [hlive]
          exact yields_run_of_flaw hgoing hstream hquiet hflaw
      have hnot : e.report.status ≠ .success := by
        rw [hstatus]
        exact Status.classify_ne_success _
      refine ⟨e, he, hsearches, iff_of_false hnot hnamed, fun h => absurd h hnot, ?_⟩
      intro before x after hentries hbefore hx
      rw [hentries, findSome?_flaw?_of_first hbefore hx] at hfirst
      obtain rfl : reasonOf x = reason := Option.some.inj hfirst
      exact ⟨hstatus, hcode, herror, hkeys⟩
  · rw [← hv.config_eq] at hstream
    obtain ⟨e, he, hsearches, hstatus, hcode, -, hkeys⟩ :=
      hv.exists_stopped (.processor .cancelled) budget caller tokens
        (fun hlive => absurd (hlive.symm.trans hcancelled) Bool.false_ne_true) fun own => by
          rw [hcancelled]
          exact yields_run_of_cancelled hgoing hstream
    exact ⟨e, he, hsearches, hstatus, hcode, hkeys⟩
  · rw [← hv.config_eq] at hstream
    exact execute?_eq_none hstream budget caller tokens

/-- One item under a name that contains two of the queries with known numbers of hits. -/
def happyFace : Catalog :=
  .ofCategories [.ofSubcategories "people" [⟨"happy face", ["x"]⟩]]

theorem build_happyFace : Catalog.build [⟨"people", ⟨"happy face", ["x"]⟩⟩] = .ok happyFace := rfl

theorem isNamed_happyFace : ∀ x ∈ happyFace.entries, IsNamed x := by
  intro x hx
  obtain rfl : x = ⟨"people", "happy face", "x", 0⟩ := List.mem_singleton.mp hx
  exact ⟨by decide, by decide⟩

/-- Two items, of which the second is empty. -/
def halfBlank : Catalog :=
  .ofCategories [.ofSubcategories "people" [⟨"somebody", ["x", ""]⟩]]

/-- The greatest batch size that a word can hold. -/
def oversized : Config where
  batchSize := 18446744073709551615

/-- A new suite. -/
def ofCatalog (c : Catalog) (config : Config) : Validation String where
  processor := .ofCatalog c config .subcategory

theorem reached_ofCatalog (c : Catalog) (config : Config) :
    Reached c config .subcategory {} [] (ofCatalog c config) :=
  .new {} _

/-- Over the first catalog three of four searches have other numbers of hits than expected, and yet
the suite succeeds, and does so again, with a producer that is ahead of its consumer and with
workers that go first; over the second one it fails; under a cancelled token it is skipped; and with
too great a batch size it reports nothing. -/
theorem suite_judges_catalog_halfBlank :
    (searchChecks happyFace expectations).map (·.passed) = [false, false, false, true] ∧
    (∃ e e', (ofCatalog happyFace {}).execute? (some (.ofSecs 1)) Tokens.root (.start false)
        = some e ∧ e.report.status = .success ∧ RecordsSuccess happyFace e.report.details ∧
      Validation.execute? none Tokens.root (.start false)
          { e.case with readings := { pace := [2, 0, 1], workerSteps := [4, 4, 0] } } = some e' ∧
        e'.report.status = .success ∧
        e'.report.details.recorded? "statistics" "total" = some (.whole 2)) ∧
    (∃ e, (ofCatalog halfBlank {}).execute? none Tokens.root (.start false) = some e ∧
      e.report.status = .failed ∧ e.report.code = some 3000 ∧
      e.report.error = some "Test failed: missing item in processed record" ∧
      e.report.details.keys = ["search_tests"]) ∧
    (∃ e, (ofCatalog halfBlank {}).execute? none Tokens.root (.start true) = some e ∧
      e.report.status = .skipped ∧ e.report.code = some 1001 ∧
      e.report.details.keys = ["search_tests"]) ∧
    (ofCatalog happyFace oversized).execute? none Tokens.root (.start true) = none := by
  have hblank : Catalog.build [⟨"people", ⟨"somebody", ["x", ""]⟩⟩] = .ok halfBlank := rfl
  have hstreams : Config.canStream {} = true := by decide
  refine ⟨by decide +kernel, ?_, ?_, ?_, ?_⟩
  · obtain ⟨e, he, -, hstatus, hdetails, -⟩ := ((suite_judges_catalog build_happyFace
      (reached_ofCatalog happyFace {}) (some (.ofSecs 1)) Tokens.root (.start false)).1 hstreams).1
      rfl (fun _ _ => rfl) rfl (fun d hd => by cases hd; decide)
    have hsuccess := hstatus.mpr isNamed_happyFace
    have hagain : Reached happyFace {} .subcategory {} [e.report.status] _ :=
      .again { pace := [2, 0, 1], workerSteps := [4, 4, 0] } (reached_ofCatalog happyFace {}) he
    have hquiet : e.case.processor.IsQuiet := by
      have hpayload : e.case.processor.payload = .subcategory :=
        congrArg (·.2.2.1) hagain.settings_eq
      intro n _
      rw [hpayload]
      rfl
    obtain ⟨e', he', -, hstatus', hdetails', -⟩ := ((suite_judges_catalog build_happyFace hagain
      none Tokens.root (.start false)).1 hstreams).1 rfl hquiet rfl (fun d hd => by cases hd)
    have hsuccess' := hstatus'.mpr isNamed_happyFace
    refine ⟨e, e', he, hsuccess, (hdetails hsuccess).1, he', hsuccess', ?_⟩
    exact (hdetails' hsuccess').2 1 (by rw [hsuccess]; rfl)
  · obtain ⟨e, he, -, -, -, hfirst⟩ := ((suite_judges_catalog hblank
      (reached_ofCatalog halfBlank {}) none Tokens.root (.start false)).1 hstreams).1
      rfl (fun _ _ => rfl) rfl (fun d hd => by cases hd)
    obtain ⟨hstatus, hcode, herror, hkeys⟩ := hfirst [⟨"people", "somebody", "x", 0⟩]
      ⟨"people", "somebody", "", 1⟩ [] rfl
      (fun y hy => by obtain rfl := List.mem_singleton.mp hy; exact ⟨by decide, by decide⟩)
      (fun hx => hx.1 rfl)
    exact ⟨e, he, hstatus, hcode, herror, hkeys rfl⟩
  · obtain ⟨e, he, -, hstatus, hcode, hkeys⟩ := ((suite_judges_catalog hblank
      (reached_ofCatalog halfBlank {}) none Tokens.root (.start true)).1 hstreams).2 rfl
    exact ⟨e, he, hstatus, hcode, hkeys rfl⟩
  · exact (suite_judges_catalog build_happyFace (reached_ofCatalog happyFace oversized) none
      Tokens.root (.start true)).2 (by decide)

/-- Every entry is in order, nothing is cancelled and there is time, and yet a suite with the
greatest batch size does not succeed: it breaks off and reports nothing. -/
theorem oversized_reports_nothing :
    Catalog.build [⟨"people", ⟨"happy face", ["x"]⟩⟩] = .ok happyFace ∧
    (∀ x ∈ happyFace.entries, IsNamed x) ∧
    Reached happyFace oversized .subcategory {} [] (ofCatalog happyFace oversized) ∧
    (Tokens.start false).isCancelled Tokens.root = false ∧
    (ofCatalog happyFace oversized).processor.IsQuiet ∧
    ¬∃ e, (ofCatalog happyFace oversized).execute? (some (.ofSecs 30)) Tokens.root (.start false)
        = some e ∧ e.report.status = .success := by
  have hnone : (ofCatalog happyFace oversized).execute? (some (.ofSecs 30)) Tokens.root
      (.start false) = none := execute?_eq_none (by decide) _ _ _
  refine ⟨build_happyFace, isNamed_happyFace, reached_ofCatalog _ _, rfl, fun _ _ => rfl, ?_⟩
  rintro ⟨e, he, -⟩
  rw [hnone] at he
  cases he

end Validation

end EmojiCatalog
