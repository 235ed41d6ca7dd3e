import EmojiCatalog.Proofs.Validation.Checks
/-!
The run of the suite.

A run goes through the checks until one finds a fault or has broken it off.  What it comes to is put
together from the checks in two ways.  `Accounts names v x` holds in all circumstances: whatever is
cancelled and however the run `x` ends, it has counted some categories, and these are `names` if it
succeeds.  `Yields` says how a run ends in given circumstances: that its own token is cancelled from
the start, or that it is not and that nothing is cancelled later.  A run whose stream cannot be
started always breaks off (`hasBrokenOff_run`).
-/

namespace EmojiCatalog.Validation

open Activity (isUsedUp)
open Processor (Counts)

variable {α : Type} {budget : Option Duration} {own : Token} {cancelled : Bool}
variable {check : Check α} {rest : Validation α → Activity (Validation α)}
variable {v w : Validation α} {s : Scene (Validation α)} {f : CaseFault}

/-! ### One check after another -/

theorem findings_under (v : Validation α) (cancelled : Bool) :
    (v.under cancelled).findings = v.findings := rfl

theorem findings_takeEvents (v : Validation α) : v.takeEvents.2.findings = v.findings := rfl

/-- The scene after a check that has led to the given suite. -/
def sceneAfter (s : Scene (Validation α)) (cancelled : Bool) (w : Validation α) :
    Scene (Validation α) where
  state := w.takeEvents.2
  tokens := if w.isCancelled && !cancelled then s.tokens.cancel Tokens.root else s.tokens
  elapsed := s.elapsed
  events := s.events ++ w.takeEvents.1

theorem perform_onlyIf_cancel (condition : Bool) (x : Activity (Validation α)) :
    (Activity.onlyIf condition (.cancel .root) x).perform budget own s
      = x.perform budget own
        { s with tokens := if condition then s.tokens.cancel Tokens.root else s.tokens } := by
  cases condition with
  | false => rfl
  | true => rfl

/-- A check that finds a fault ends the run. -/
theorem perform_step_of_fault (h : check (v.under (s.tokens.isCancelled own)) = (some f, w)) :
    (step check rest v).perform budget own s
      = (.returned (some f), sceneAfter s (s.tokens.isCancelled own) w) := by
  simp only [step, Activity.perform, Activity.tokenOf, h]
  rw [perform_onlyIf_cancel]
  rfl

/-- After a check that finds no fault the run goes on, unless it has broken off. -/
theorem perform_step_of_none (h : check (v.under (s.tokens.isCancelled own)) = (none, w))
    (hgoing : w.hasBrokenOff = false) :
    (step check rest v).perform budget own s
      = (rest w.takeEvents.2).perform budget own
        (sceneAfter s (s.tokens.isCancelled own) w) := by
  have hgoing' : w.takeEvents.2.hasBrokenOff = false := hgoing
  simp only [step, Activity.perform, Activity.tokenOf, h, hgoing', Bool.false_eq_true, if_false]
  rw [perform_onlyIf_cancel]
  rfl

/-- A check that breaks the run off ends it without a fault. -/
theorem perform_step_of_hasBrokenOff
    (h : check (v.under (s.tokens.isCancelled own)) = (none, w)) (hbroken : w.hasBrokenOff = true) :
    (step check rest v).perform budget own s
      = (.returned none, sceneAfter s (s.tokens.isCancelled own) w) := by
  have hbroken' : w.takeEvents.2.hasBrokenOff = true := hbroken
  simp only [step, Activity.perform, Activity.tokenOf, h, hbroken', if_true]
  rw [perform_onlyIf_cancel]
  rfl

/-- A run waits before the stream unless its token is cancelled or there is no stream. -/
theorem perform_awaitStream (v : Validation α) (x : Activity (Validation α)) :
    (v.awaitStream x).perform budget own s
      = if (!s.tokens.isCancelled own && v.processor.config.canStream) = true ∧
          isUsedUp s.elapsed budget = true then (.expired, s)
        else x.perform budget own s := by
  simp only [awaitStream, Activity.perform, Activity.tokenOf]
  cases !s.tokens.isCancelled own && v.processor.config.canStream with
  | false => rfl
  | true => simp only [Activity.onlyIf, if_true, Activity.perform, true_and]

/-! ### In all circumstances -/

/-- However the run ends, it has counted some categories, and the given ones if it succeeds and has
not broken off. -/
def Accounts (names : List String) (v : Validation α) (x : Activity (Validation α)) : Prop :=
  ∀ (budget : Option Duration) (own : Token) (s : Scene (Validation α)), s.state = v →
    let out := x.perform budget own s
    ∃ more, Counts v.processor more out.2.state.processor ∧
      (out.1 = .returned none → out.2.state.hasBrokenOff = false → more = names)

theorem accounts_finish (v : Validation α) : Accounts [] v (.finish v none) :=
  fun _ _ _ _ => ⟨[], .refl _, fun _ _ => rfl⟩

theorem accounts_step {names names' : List String}
    (hcheck : ∀ cancelled, ∃ more,
      Counts (v.under cancelled).processor more (check (v.under cancelled)).2.processor ∧
        ((check (v.under cancelled)).1 = none →
          (check (v.under cancelled)).2.hasBrokenOff = false → more = names))
    (hrest : ∀ w : Validation α, w.processor.settings = v.processor.settings →
      Accounts names' w (rest w)) :
    Accounts (names ++ names') v (step check rest v) := by
  intro budget own s _ out
  obtain ⟨more, hchecked, hnone⟩ := hcheck (s.tokens.isCancelled own)
  rcases hout : check (v.under (s.tokens.isCancelled own)) with ⟨fault, w⟩
  rw [hout] at hchecked hnone
  have hcounts : Counts v.processor more w.takeEvents.2.processor :=
    ⟨hchecked.settings_eq, hchecked.tally_eq⟩
  clear hchecked
  cases fault with
  | some f =>
    have hout : out = _ := perform_step_of_fault hout
    rw [hout]
    exact ⟨more, hcounts, fun hend => by cases hend⟩
  | none =>
    cases hbroken : w.hasBrokenOff with
    | true =>
      have hout : out = _ := perform_step_of_hasBrokenOff hout hbroken
      rw [hout]
      exact ⟨more, hcounts, fun _ hgoing => absurd (hbroken.symm.trans hgoing) Bool.noConfusion⟩
    | false =>
      have hout : out = _ := perform_step_of_none hout hbroken
      obtain ⟨more', hcounts', hnone'⟩ := hrest w.takeEvents.2 hcounts.settings_eq budget own
        (sceneAfter s (s.tokens.isCancelled own) w) rfl
      rw [hout]
      refine ⟨more ++ more', hcounts.trans hcounts', fun hend hgoing => ?_⟩
      rw [hnone rfl hbroken, hnone' hend hgoing]

theorem accounts_awaitStream {names : List String} {x : Activity (Validation α)}
    (hx : Accounts names v x) : Accounts names v (v.awaitStream x) := by
  intro budget own s hs out
  have hout : out = _ := perform_awaitStream v x
  rw [hout]
  split
  · rw [hs]
    exact ⟨[], .refl _, fun hend => by cases hend⟩
  · exact hx budget own s hs

/-- A check that counts nothing leaves the counting to the rest. -/
theorem accounts_step_of_counts_nil {names : List String}
    (hcheck : ∀ u : Validation α, Counts u.processor [] (check u).2.processor)
    (hrest : ∀ w : Validation α, w.processor.settings = v.processor.settings →
      Accounts names w (rest w)) : Accounts names v (step check rest v) := by
  have h := accounts_step (fun cancelled => ⟨[], hcheck (v.under cancelled), fun _ _ => rfl⟩) hrest
  rw [List.nil_append] at h
  exact h

/-- A run that succeeds has counted the categories of all entries. -/
theorem accounts_run (v : Validation α) :
    Accounts (v.processor.catalog.entries.map (·.category)) v (run v) := by
  refine accounts_step_of_counts_nil counts_checkSearch fun w hw => accounts_awaitStream ?_
  -- all is counted by the stream check, and nothing by those after it
  have hcatalog : w.processor.catalog = v.processor.catalog := congrArg (·.1) hw
  have hstream : Accounts (w.processor.catalog.entries.map (·.category) ++ []) w
      (step checkStream (step checkStatistics <| step checkPerformance <|
        step checkPool fun v => .finish v none) w) := by
    refine accounts_step (fun cancelled => counts_checkStream (v := w.under cancelled) rfl)
      fun _ _ => ?_
    refine accounts_step_of_counts_nil counts_checkStatistics fun _ _ => ?_
    refine accounts_step_of_counts_nil counts_checkPerformance fun _ _ => ?_
    exact accounts_step_of_counts_nil counts_checkPool fun u _ => accounts_finish u
  rw [List.append_nil, hcatalog] at hstream
  exact hstream

/-! ### In given circumstances -/

/-- Performed in time, and while its own token is cancelled or not, the run ends with the given
fault or without, and in such a state; it has not broken off. -/
def Yields (budget : Option Duration) (own : Token) (cancelled : Bool) (fault : Option CaseFault)
    (Q : Validation α → Prop) (x : Activity (Validation α)) : Prop :=
  ∀ s : Scene (Validation α), s.tokens.isCancelled own = cancelled →
    (cancelled = false → isUsedUp s.elapsed budget = false) →
      let out := x.perform budget own s
      out.1 = .returned fault ∧ out.2.state.hasBrokenOff = false ∧ Q out.2.state

section Yields

variable {fault : Option CaseFault} {Q : Validation α → Prop}

theorem yields_finish (hgoing : v.hasBrokenOff = false) (h : Q v) :
    Yields budget own cancelled fault Q (.finish v fault) :=
  fun _ _ _ => ⟨rfl, hgoing, h⟩

theorem yields_step_of_fault (hcheck : check (v.under cancelled) = (some f, w))
    (hgoing : w.hasBrokenOff = false) (h : Q w.takeEvents.2) :
    Yields budget own cancelled (some f) Q (step check rest v) := by
  rintro s rfl -
  rw [perform_step_of_fault hcheck]
  exact ⟨rfl, hgoing, h⟩

/-- A check that finds no fault and cancels nothing hands over to the next one. -/
theorem yields_step (hcheck : check (v.under cancelled) = (none, w))
    (hgoing : w.hasBrokenOff = false) (hlive : w.isCancelled = cancelled)
    (hrest : Yields budget own cancelled fault Q (rest w.takeEvents.2)) :
    Yields budget own cancelled fault Q (step check rest v) := by
  rintro s rfl hintime
  rw [perform_step_of_none hcheck hgoing]
  -- a check that cancels nothing leaves the tokens of the run alone
  have htokens : (sceneAfter s (s.tokens.isCancelled own) w).tokens = s.tokens := by
    rw [sceneAfter, hlive, Bool.and_not_self]
    rfl
  exact hrest _ (by rw [htokens]) hintime

theorem yields_awaitStream {x : Activity (Validation α)}
    (hx : Yields budget own cancelled fault Q x) :
    Yields budget own cancelled fault Q (v.awaitStream x) := by
  intro s hs hintime
  have hnot : ¬((!s.tokens.isCancelled own && v.processor.config.canStream) = true ∧
      isUsedUp s.elapsed budget = true) := by
    rintro ⟨hwaits, hused⟩
    have hlive : s.tokens.isCancelled own = false := by
      simpa using (Bool.and_eq_true_iff.mp hwaits).1
    rw [hintime (hs.symm.trans hlive)] at hused
    cases hused
  rw [perform_awaitStream, if_neg hnot]
  exact hx s hs hintime

end Yields

/-! ### The checks, one by one -/

section Checks

variable {fault : Option CaseFault} {Q : Validation α → Prop}
variable (hgoing : v.hasBrokenOff = false)
include hgoing

theorem yields_checkSearch
    (hrest : ∀ u : Validation α, (v.processor.IsQuiet → u.processor.IsQuiet) →
      Counts v.processor [] u.processor → u.hasBrokenOff = false →
      u.findings = { v.findings with
        searches := some (searchChecks v.processor.catalog expectations) } →
      Yields budget own cancelled fault Q (rest u)) :
    Yields budget own cancelled fault Q (step checkSearch rest v) := by
  obtain ⟨q, ⟨events, rfl⟩, hcheck⟩ := checkSearch_eq (v.under cancelled)
  refine yields_step hcheck hgoing ?_ (hrest _ id ⟨rfl, rfl⟩ hgoing rfl)
  cases cancelled with
  | false => rfl
  | true => rfl

theorem yields_checkStream (hstream : v.processor.config.canStream = true)
    (hquiet : v.processor.IsQuiet)
    (hsound : v.processor.catalog.entries.findSome? Entry.flaw? = none)
    (hrest : ∀ (u : Validation α) (time : Duration),
      Counts v.processor (v.processor.catalog.entries.map (·.category)) u.processor →
      u.hasBrokenOff = false →
      u.findings = { v.findings with
        stream := some (v.processor.catalog.entries.length, time) } →
      Yields budget own false fault Q (rest u)) :
    Yields budget own false fault Q (step checkStream rest v) := by
  obtain ⟨names, hcounts, hnames⟩ := counts_checkStream (v := v.under false) rfl
  obtain ⟨q, hlive, hcheck⟩ :=
    checkStream_of_sound (v := v.under false) rfl hquiet rfl hstream hsound
  rw [hcheck] at hcounts hnames
  obtain rfl := hnames rfl hgoing
  exact yields_step hcheck hgoing hlive
    (hrest _ _ ⟨hcounts.settings_eq, hcounts.tally_eq⟩ hgoing rfl)

theorem yields_checkStatistics (hmetrics : v.processor.metrics.cancelsRoot = false)
    {names : List String} (htally : v.processor.tally = .ofNames names)
    (hrest : ∀ (u : Validation α) (stats : Stats), stats.tally = .ofNames names →
      u.hasBrokenOff = false → u.findings = { v.findings with statistics := some stats } →
      Yields budget own false fault Q (rest u)) :
    Yields budget own false fault Q (step checkStatistics rest v) := by
  have hverify : (v.under false).processor.tally.verify = .ok () := by
    show v.processor.tally.verify = .ok ()
    rw [htally, Tally.verify_ofNames]
  obtain ⟨stats, q, hstats, ⟨events, rfl⟩, hcheck⟩ :=
    checkStatistics_eq (v := v.under false) hmetrics hverify
  exact yields_step hcheck hgoing rfl (hrest _ stats (hstats.trans htally) hgoing rfl)

theorem yields_checkPerformance
    (hrest : ∀ (u : Validation α) (found : Duration × Option Nat), u.hasBrokenOff = false →
      u.findings = { v.findings with performance := some found } →
      Yields budget own false fault Q (rest u)) :
    Yields budget own false fault Q (step checkPerformance rest v) := by
  obtain ⟨q, ⟨events, rfl⟩, hcheck⟩ := checkPerformance_eq (v.under false)
  exact yields_step hcheck hgoing rfl (hrest _ _ hgoing rfl)

/-- Whichever workers go first, all queries are answered. -/
theorem yields_checkPool
    (hrest : ∀ (u : Validation α) (time : Duration), u.hasBrokenOff = false →
      u.findings = { v.findings with
        pool := some (.after (.allAnswered workerCount queriesPerWorker) time) } →
      Yields budget own false fault Q (rest u)) :
    Yields budget own false fault Q (step checkPool rest v) := by
  obtain ⟨q, ⟨events, rfl⟩, hcheck⟩ := checkPool_eq (v.under false)
  have houtcome : (Pool.run (v.under false).processor.catalog
      (.perWorker (v.under false).processor.config.queryLimit) workerCount queriesPerWorker
      (v.under false).isCancelled (v.under false).readings.workerSteps).outcome
        = .allAnswered workerCount queriesPerWorker :=
    Pool.outcome_run_perWorker _ _ _ _ _
  rw [houtcome, poolFault?_allAnswered] at hcheck
  exact yields_step hcheck hgoing rfl (hrest _ _ hgoing rfl)

end Checks

/-! ### Whole runs -/

/-- A stream that cannot be started breaks the run off, and nothing is waited for before. -/
theorem hasBrokenOff_awaitStream (hstream : v.processor.config.canStream = false)
    (budget : Option Duration) (own : Token) (s : Scene (Validation α)) :
    ((v.awaitStream (step checkStream rest v)).perform budget own s).2.state.hasBrokenOff
      = true := by
  obtain ⟨q, -, hcheck⟩ :=
    checkStream_of_not_canStream (v := v.under (s.tokens.isCancelled own)) hstream
  have hnot : ¬((!s.tokens.isCancelled own && v.processor.config.canStream) = true ∧
      isUsedUp s.elapsed budget = true) := by
    rintro ⟨hwaits, -⟩
    rw [hstream, Bool.and_false] at hwaits
    cases hwaits
  rw [perform_awaitStream, if_neg hnot, perform_step_of_hasBrokenOff hcheck rfl]
  rfl

/-- A run whose stream cannot be started breaks off, whatever is cancelled and whatever the
budget. -/
theorem hasBrokenOff_run (hstream : v.processor.config.canStream = false)
    (budget : Option Duration) (own : Token) (s : Scene (Validation α)) :
    ((run v).perform budget own s).2.state.hasBrokenOff = true := by
  obtain ⟨q, ⟨events, rfl⟩, hsearch⟩ := checkSearch_eq (v.under (s.tokens.isCancelled own))
  rw [run]
  cases hbroken : v.hasBrokenOff with
  | true =>
    rw [perform_step_of_hasBrokenOff hsearch hbroken]
    exact hbroken
  | false =>
    rw [perform_step_of_none hsearch hbroken]
    apply hasBrokenOff_awaitStream
    exact hstream

section Started

variable (hgoing : v.hasBrokenOff = false) (hstream : v.processor.config.canStream = true)
include hgoing hstream

/-- Under a cancelled token the run stops at the stream. -/
theorem yields_run_of_cancelled :
    Yields budget own true (some (.processor .cancelled))
      (fun w => w.findings = { v.findings with
        searches := some (searchChecks v.processor.catalog expectations) }) (run v) := by
  refine yields_checkSearch hgoing fun u _ hcounts hgoing hfindings => yields_awaitStream ?_
  have hconfig : u.processor.config = v.processor.config := congrArg (·.2.1) hcounts.settings_eq
  rw [← hconfig] at hstream
  refine yields_step_of_fault (checkStream_of_cancelled rfl hstream rfl) hgoing ?_
  simpa only [findings_takeEvents, findings_under] using hfindings

section Undisturbed

variable (hquiet : v.processor.IsQuiet)
include hquiet

/-- When nothing is cancelled, the run stops at the first entry with a flaw. -/
theorem yields_run_of_flaw {reason : String}
    (hflaw : v.processor.catalog.entries.findSome? Entry.flaw? = some reason) :
    Yields budget own false (some (.failed reason))
      (fun w => w.findings = { v.findings with
        searches := some (searchChecks v.processor.catalog expectations) }) (run v) := by
  refine yields_checkSearch hgoing fun u hu hcounts hgoing hfindings => yields_awaitStream ?_
  have hcatalog : u.processor.catalog = v.processor.catalog := congrArg (·.1) hcounts.settings_eq
  have hconfig : u.processor.config = v.processor.config := congrArg (·.2.1) hcounts.settings_eq
  rw [← hcatalog] at hflaw
  rw [← hconfig] at hstream
  have hcheck := checkStream_of_flaw (v := u.under false) rfl (hu hquiet) rfl hstream hflaw
  refine yields_step_of_fault hcheck hgoing ?_
  simpa only [findings_takeEvents, findings_under] using hfindings

/-- Everything was found: the hits of all searches, a record for every entry, statistics of the
given total, and an answer to every query of the pool. -/
structure Complete (c : Catalog) (total : Nat) (f : Findings) : Prop where
  searches : f.searches = some (searchChecks c expectations)
  stream : ∃ time, f.stream = some (c.entries.length, time)
  statistics : ∃ stats, f.statistics = some stats ∧ stats.tally.total = total
  performance : ∃ found, f.performance = some found
  pool : ∃ time, f.pool = some (.after (.allAnswered workerCount queriesPerWorker) time)

/-- When nothing is cancelled and no entry has a flaw, the run makes all of its checks. -/
theorem yields_run_of_sound (hmetrics : v.processor.metrics.cancelsRoot = false)
    {names : List String} (htally : v.processor.tally = .ofNames names)
    (hsound : v.processor.catalog.entries.findSome? Entry.flaw? = none) :
    Yields budget own false none
      (fun w => Complete v.processor.catalog
        (names.length + v.processor.catalog.entries.length) w.findings) (run v) := by
  let categories := v.processor.catalog.entries.map (·.category)
  refine yields_checkSearch hgoing fun u hu hsearched hgoing hsearches => yields_awaitStream ?_
  have hcatalog : u.processor.catalog = v.processor.catalog := congrArg (·.1) hsearched.settings_eq
  have hconfig : u.processor.config = v.processor.config := congrArg (·.2.1) hsearched.settings_eq
  refine yields_checkStream hgoing (by rw [hconfig, hstream]) (hu hquiet) (by rw [hcatalog, hsound])
    fun w time hstreamed hgoing hstream => ?_
  rw [hcatalog] at hstreamed hstream
  have hw := hsearched.trans hstreamed
  rw [List.nil_append] at hw
  have hmetrics' : w.processor.metrics.cancelsRoot = false := by
    have hsame : w.processor.metrics = v.processor.metrics := congrArg (·.2.2.2) hw.settings_eq
    rw [hsame, hmetrics]
  have htally' : w.processor.tally = .ofNames (names ++ categories) := hw.tally_ofNames htally
  refine yields_checkStatistics hgoing hmetrics' htally' fun x stats hstats hgoing hstatistics => ?_
  refine yields_checkPerformance hgoing fun y found hgoing hperformance => ?_
  refine yields_checkPool hgoing fun z poolTime hgoing hpool => yields_finish hgoing ?_
  have htotal : stats.tally.total = names.length + v.processor.catalog.entries.length := by
    rw [hstats, Tally.total_ofNames, List.length_append, List.length_map]
  rw [hpool, hperformance, hstatistics, hstream, hsearches]
  exact ⟨rfl, ⟨_, rfl⟩, ⟨stats, rfl, htotal⟩, ⟨_, rfl⟩, ⟨_, rfl⟩⟩

end Undisturbed

end Started

end EmojiCatalog.Validation
