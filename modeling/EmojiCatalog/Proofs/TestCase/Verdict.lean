import EmojiCatalog.Proofs.TestCase.Performance
import EmojiCatalog.TestCase.Scripted
/-!
The verdict on a test case.

A case goes through its phases in one of two ways, and either has a closed form.  When its setup
fails it is judged at once (`Execution.unready`), and otherwise it runs, is judged by the fault of
the run, and is torn down (`Execution.afterRun`).  Along either way a status is requested twice,
first of a pending case and then of a running one.  Both requests are legal, so the status of the
report is the one requested last.

Whether there is a report at all is up to the run (`Ran`), which ends if there is a budget.

Teardown comes after the verdict.  Two cases whose setups and runs do the same up to a relation
between their states (`AlikeBeforeTeardown`) are therefore judged alike, whatever their teardowns
do.  `execution_is_judged` puts these together.
-/

namespace EmojiCatalog

/-! ### What the phases do to a case on its way -/

/-- The verdict on a case that ran: success, or what its fault earns it. -/
def verdict : Option CaseFault → Status
  | none => .success
  | some f => f.status

theorem isTerminal_verdict (fault : Option CaseFault) : (verdict fault).isTerminal := by
  cases fault with
  | none => rfl
  | some f => exact Status.classify_isTerminal f.code

theorem isSome_iff_verdict_ne_success (fault : Option CaseFault) :
    fault.isSome ↔ verdict fault ≠ .success := by
  cases fault with
  | none => exact ⟨nofun, fun h => absurd rfl h⟩
  | some f => exact ⟨fun _ => Status.classify_ne_success f.code, fun _ => rfl⟩

/-- The tokens that setup or teardown leaves. -/
def Brief.leaves {σ : Type} (b : Brief σ) (tokens : Tokens) : Tokens :=
  if b.cancelsRoot then tokens.cancel Tokens.root else tokens

namespace Progress

variable {σ : Type} {p : Progress σ}

/-- A legal request is granted. -/
theorem request_of_mayBecome {next : Status} (h : p.status.mayBecome next) :
    p.request next = { p.mark (.requested p.status next) with status := next } := by
  have hgranted : (p.mark (.requested p.status next)).status.transition next = .ok next := if_pos h
  rw [request, hgranted]

/-- A running case gets the verdict that is requested for it. -/
theorem request_of_running {next : Status} (h : p.status = .running) (hnext : next.isTerminal) :
    p.request next = { p.mark (.requested .running next) with status := next } := by
  have hmay : p.status.mayBecome next := by
    rw [h]
    exact hnext
  rw [request_of_mayBecome hmay, h]

/-- The event that goes with a verdict. -/
def verdictEvent (name : String) : Option CaseFault → Log.Event
  | none => ⟨.info, "Test completed successfully", [caseField name, Log.succeeded]⟩
  | some f => faultEvent name f

/-- A running case is judged by the fault of its run alone. -/
theorem judge_of_running (h : p.status = .running) (name : String) (fault : Option CaseFault) :
    p.judge name fault = { p with
      status := verdict fault
      trace := p.trace ++ [.requested .running (verdict fault)]
      events := p.events ++ [verdictEvent name fault] } := by
  cases fault with
  | none =>
    rw [judge, request_of_running h rfl]
    rfl
  | some f =>
    have hnoted : (p.note [faultEvent name f]).status = .running := h
    have hterminal : f.status.isTerminal := Status.classify_isTerminal f.code
    rw [judge, request_of_running hnoted hterminal]
    rfl

/-- The events on the fault of a teardown. -/
def cleanupEvents (name : String) : Option CaseFault → List Log.Event
  | none => []
  | some f => [⟨.warn, "Cleanup warning", [caseField name, ("error", .text f.message)]⟩]

/-- Tearing a case down changes its state, and not its verdict. -/
theorem tearDown_eq [TestCase σ] (name : String) (own : Token) (p : Progress σ) :
    let b := TestCase.teardown p.rootCancelled (p.tokens.isCancelled own) p.case
    p.tearDown name own = { p with
      case := b.state
      tokens := b.leaves p.tokens
      trace := p.trace ++ [.tornDown]
      events := p.events ++ b.events ++ cleanupEvents name b.fault } := by
  intro b
  rw [tearDown]
  cases hfault : b.fault with
  | none =>
    rw [cleanupEvents, List.append_nil]
    rfl
  | some f => rfl

end Progress

/-! ### The run of a case -/

/-- The run of a case: its token, how it ends, and the scene that it leaves. -/
structure Ran (σ : Type) where
  own : Token
  how : RunEnd
  scene : Scene σ

namespace Ran

variable {σ : Type}

/-- The tokens after the run: that of a run that was given up is cancelled. -/
def tokens (r : Ran σ) : Tokens :=
  match r.how with
  | .expired => r.scene.tokens.cancel r.own
  | _ => r.scene.tokens

/-- The fault of the run under a budget, unless the run never ends. -/
def fault? (budget : Option Duration) (r : Ran σ) : Option (Option CaseFault) :=
  match r.how, budget with
  | .returned fault, _ => some fault
  | .expired, some budget => some (some (.timedOut budget))
  | .expired, none | .never, _ => none

theorem fault?_of_returned {r : Ran σ} {budget : Option Duration} {fault : Option CaseFault}
    (h : r.how = .returned fault) : r.fault? budget = some fault := by
  simp only [fault?, h]

theorem fault?_of_expired {r : Ran σ} {d : Duration} (h : r.how = .expired) :
    r.fault? (some d) = some (some (.timedOut d)) := by
  simp only [fault?, h]

variable [TestCase σ]

/-- The run of a case in a state, under the given tokens. -/
def under (budget : Option Duration) (caller : Token) (tokens : Tokens) (case : σ) : Ran σ :=
  let (own, tokens) := Progress.runToken budget caller tokens
  let (how, scene) := (TestCase.run case).perform budget own { state := case, tokens := tokens }
  ⟨own, how, scene⟩

/-- The run of a case after its setup. -/
def afterSetup (budget : Option Duration) (caller : Token) (tokens : Tokens) (case : σ) : Ran σ :=
  let b := TestCase.setup (tokens.isCancelled Tokens.root) case
  under budget caller (b.leaves tokens) b.state

variable {budget : Option Duration} {caller : Token} {tokens : Tokens} {case : σ}

theorem isPossible_how (budget : Option Duration) (caller : Token) (tokens : Tokens) (case : σ) :
    (under budget caller tokens case).how.IsPossible budget :=
  Activity.perform_isPossible _ _

/-- Only a run without a budget never ends. -/
theorem eq_none_of_never (h : (under budget caller tokens case).how = .never) : budget = none := by
  have hpossible := isPossible_how budget caller tokens case
  rw [h] at hpossible
  exact hpossible

/-- Only a run under a budget expires. -/
theorem exists_of_expired (h : (under budget caller tokens case).how = .expired) :
    ∃ d, budget = some d := by
  have hpossible := isPossible_how budget caller tokens case
  rw [h] at hpossible
  exact Option.ne_none_iff_exists'.mp hpossible

theorem fault?_under_eq_none_iff :
    (under budget caller tokens case).fault? budget = none ↔
      (under budget caller tokens case).how = .never := by
  cases hhow : (under budget caller tokens case).how with
  | returned fault =>
    rw [fault?_of_returned hhow]
    exact ⟨nofun, nofun⟩
  | expired =>
    obtain ⟨d, rfl⟩ := exists_of_expired hhow
    rw [fault?_of_expired hhow]
    exact ⟨nofun, nofun⟩
  | never => simp only [fault?, hhow]

end Ran

namespace Progress

variable {σ : Type} [TestCase σ]

/-- A case that has run, on its way to the verdict. -/
def afterRun (p : Progress σ) (r : Ran σ) : Progress σ :=
  { (p.mark .ran).note r.scene.events with case := r.scene.state, tokens := r.tokens }

/-- A case gets through its run exactly if this ends. -/
theorem run_eq (budget : Option Duration) (caller : Token) (p : Progress σ) :
    let r := Ran.under budget caller p.tokens p.case
    p.run budget caller = (r.fault? budget).map fun fault => (fault, r.own, p.afterRun r) := by
  simp only [run, afterRun, Ran.under, Ran.fault?, Ran.tokens]
  rcases Progress.runToken budget caller p.tokens with ⟨own, tokens⟩
  rcases (TestCase.run p.case).perform budget own { state := p.case, tokens := tokens }
    with ⟨how, scene⟩
  cases how with
  | returned fault => rfl
  | expired =>
    cases budget with
    | none => rfl
    | some d => rfl
  | never => rfl

end Progress

/-! ### The whole way -/

/-- The code in a report. -/
def Report.code (r : Report) : Option Int := r.fault.map (·.code)

/-- The text of the error in a report. -/
def Report.error (r : Report) : Option String := r.fault.map (·.message)

section Execution

variable {σ : Type} [TestCase σ] {budget : Option Duration} {caller : Token} {tokens : Tokens}
  {case : σ}

/-- A case that has been started and set up, before anything is made of the fault of its setup. -/
def Progress.begun (tokens : Tokens) (case : σ) : Progress σ :=
  let p : Progress σ := {
    case := case
    tokens := tokens
    status := .running
    trace := [.requested .pending .running, .setUp]
    events := [⟨.info, "Starting test execution", [caseField (TestCase.name case)]⟩] }
  p.take (TestCase.setup (tokens.isCancelled Tokens.root) case)

/-- A pending case may start running. -/
theorem Progress.setUp_started (tokens : Tokens) (case : σ) :
    (((Progress.mk case tokens .pending [] []).request .running).note
        [⟨.info, "Starting test execution", [caseField (TestCase.name case)]⟩]).setUp
      = ((TestCase.setup (tokens.isCancelled Tokens.root) case).fault,
        Progress.begun tokens case) := rfl

/-- The events until a case is set up. -/
def openingEvents (tokens : Tokens) (case : σ) : List Log.Event :=
  ⟨.info, "Starting test execution", [caseField (TestCase.name case)]⟩
    :: (TestCase.setup (tokens.isCancelled Tokens.root) case).events

/-- What becomes of a case whose setup has failed. -/
def Execution.unready (tokens : Tokens) (case : σ) (f : CaseFault) : Execution σ :=
  let name := TestCase.name case
  let b := TestCase.setup (tokens.isCancelled Tokens.root) case
  let left := b.leaves tokens
  { report := ⟨name, .failed, TestCase.details (left.isCancelled Tokens.root) b.state, some f⟩
    case := b.state
    tokens := left
    trace := [.requested .pending .running, .setUp, .requested .running .failed]
    events := openingEvents tokens case
      ++ [⟨.error, "Setup failed", [caseField name, ("error", .text f.message)]⟩] }

/-- The teardown of a case after its run. -/
def Ran.teardown (r : Ran σ) : Brief σ :=
  TestCase.teardown (r.tokens.isCancelled Tokens.root) (r.tokens.isCancelled r.own) r.scene.state

/-- What becomes of a case that was set up under some tokens, when its run had the given fault. -/
def Execution.afterRun (tokens : Tokens) (case : σ) (r : Ran σ) (fault : Option CaseFault) :
    Execution σ :=
  let name := TestCase.name case
  let b := r.teardown
  let left := b.leaves r.tokens
  { report := ⟨name, verdict fault, TestCase.details (left.isCancelled Tokens.root) b.state, fault⟩
    case := b.state
    tokens := left
    trace := [.requested .pending .running, .setUp, .ran, .requested .running (verdict fault),
      .tornDown]
    events := openingEvents tokens case ++ r.scene.events
      ++ [Progress.verdictEvent name fault] ++ b.events ++ Progress.cleanupEvents name b.fault }

theorem executeWithin_eq_some {f : CaseFault}
    (h : (TestCase.setup (tokens.isCancelled Tokens.root) case).fault = some f) :
    executeWithin budget caller tokens case = some (.unready tokens case f) := by
  simp only [executeWithin, Progress.setUp_started, h]
  rfl

theorem executeWithin_eq_map
    (h : (TestCase.setup (tokens.isCancelled Tokens.root) case).fault = none) :
    let r := Ran.afterSetup budget caller tokens case
    executeWithin budget caller tokens case = (r.fault? budget).map (.afterRun tokens case r) := by
  intro r
  let q := (Progress.begun tokens case).afterRun r
  have hrun : (Progress.begun tokens case).run budget caller
      = (r.fault? budget).map fun fault => (fault, r.own, q) := Progress.run_eq _ _ _
  have hrunning : q.status = .running := rfl
  simp only [executeWithin, Progress.setUp_started, h, hrun]
  cases r.fault? budget with
  | none => rfl
  | some fault =>
    simp only [Option.map_some, Progress.judge_of_running hrunning, Progress.tearDown_eq]
    rfl

/-- A case that cannot be set up has failed, and nothing else happens to it. -/
theorem executeWithin_of_fault {f : CaseFault}
    (h : (TestCase.setup (tokens.isCancelled Tokens.root) case).fault = some f) :
    ∃ e, executeWithin budget caller tokens case = some e ∧
      e.report.status = .failed ∧ e.report.fault = some f ∧
      e.case = (TestCase.setup (tokens.isCancelled Tokens.root) case).state ∧
      e.trace = [.requested .pending .running, .setUp, .requested .running .failed] :=
  ⟨_, executeWithin_eq_some h, rfl, rfl, rfl, rfl⟩

/-- Every other case is judged by the fault of its run, if this ends, and is then torn down. -/
theorem executeWithin_of_setUp
    (h : (TestCase.setup (tokens.isCancelled Tokens.root) case).fault = none) :
    let r := Ran.afterSetup budget caller tokens case
    ∃ e : Option CaseFault → Execution σ,
      executeWithin budget caller tokens case = (r.fault? budget).map e ∧
      ∀ fault, (e fault).report.status = verdict fault ∧ (e fault).report.fault = fault ∧
        (e fault).case = r.teardown.state ∧
        (e fault).trace = [.requested .pending .running, .setUp, .ran,
          .requested .running (verdict fault), .tornDown] :=
  ⟨_, executeWithin_eq_map h, fun _ => ⟨rfl, rfl, rfl, rfl⟩⟩

/-- What is known of a case that has been executed: either its setup failed, or its run ended and
decided. -/
theorem executeWithin_cases {e : Execution σ}
    (he : executeWithin budget caller tokens case = some e) :
    let b := TestCase.setup (tokens.isCancelled Tokens.root) case
    let r := Ran.afterSetup budget caller tokens case
    (∃ f, b.fault = some f ∧ e.report.status = .failed ∧ e.report.fault = some f ∧
      e.case = b.state ∧
      e.trace = [.requested .pending .running, .setUp, .requested .running .failed]) ∨
    (b.fault = none ∧ r.fault? budget = some e.report.fault ∧
      e.report.status = verdict e.report.fault ∧
      e.case = r.teardown.state ∧
      e.trace = [.requested .pending .running, .setUp, .ran,
        .requested .running e.report.status, .tornDown]) := by
  intro b r
  cases hb : b.fault with
  | some f =>
    obtain ⟨e', he', hreport⟩ := executeWithin_of_fault hb
    obtain rfl : e' = e := Option.some.inj (he'.symm.trans he)
    exact .inl ⟨f, rfl, hreport⟩
  | none =>
    obtain ⟨ending, hending, hreport⟩ := executeWithin_of_setUp hb
    obtain ⟨fault, hfault, rfl⟩ := Option.map_eq_some_iff.mp (hending.symm.trans he)
    obtain ⟨hstatus, hown, hcase, htrace⟩ := hreport fault
    rw [← hstatus] at htrace
    exact .inr ⟨rfl, by rw [hown, hfault], by rw [hown, hstatus], hcase, htrace⟩

/-- Every report gives a verdict. -/
theorem isTerminal_of_executeWithin {e : Execution σ}
    (he : executeWithin budget caller tokens case = some e) : e.report.status.isTerminal := by
  obtain ⟨f, -, hstatus, -⟩ | ⟨-, -, hstatus, -⟩ := executeWithin_cases he
  · rw [hstatus]
    rfl
  · rw [hstatus]
    exact isTerminal_verdict _

/-- No request is refused. -/
theorem transition_of_requested {e : Execution σ}
    (he : executeWithin budget caller tokens case = some e) {now next : Status}
    (hmem : .requested now next ∈ e.trace) : now.transition next = .ok next := by
  have hterminal := isTerminal_of_executeWithin he
  obtain ⟨f, -, -, -, -, htrace⟩ | ⟨-, -, -, -, htrace⟩ := executeWithin_cases he
  · rw [htrace] at hmem
    obtain ⟨rfl, rfl⟩ | ⟨rfl, rfl⟩ : now = .pending ∧ next = .running ∨
        now = .running ∧ next = .failed := by simpa using hmem
    · rfl
    · rfl
  · rw [htrace] at hmem
    obtain ⟨rfl, rfl⟩ | ⟨rfl, rfl⟩ : now = .pending ∧ next = .running ∨
        now = .running ∧ next = e.report.status := by simpa using hmem
    · rfl
    · rw [Status.transition]
      exact if_pos hterminal

/-- A fault is reported exactly with a verdict other than success. -/
theorem isSome_fault_iff {e : Execution σ}
    (he : executeWithin budget caller tokens case = some e) :
    e.report.fault.isSome ↔ e.report.status ≠ .success := by
  obtain ⟨f, -, hstatus, hfault, -⟩ | ⟨-, -, hstatus, -⟩ := executeWithin_cases he
  · rw [hstatus, hfault]
    exact ⟨fun _ => nofun, fun _ => rfl⟩
  · rw [hstatus]
    exact isSome_iff_verdict_ne_success _

/-- The status and the fault that are reported are those of setup or of the run. -/
theorem executeWithin_map_report (budget : Option Duration) (caller : Token) (tokens : Tokens)
    (case : σ) :
    (executeWithin budget caller tokens case).map (fun e => (e.report.status, e.report.fault))
      = match (TestCase.setup (tokens.isCancelled Tokens.root) case).fault with
        | some f => some (.failed, some f)
        | none => ((Ran.afterSetup budget caller tokens case).fault? budget).map fun fault =>
          (verdict fault, fault) := by
  split
  next f h =>
    obtain ⟨e, he, hstatus, hfault, -⟩ := executeWithin_of_fault h
    rw [he, Option.map_some, hstatus, hfault]
  next h =>
    obtain ⟨e, he, hreport⟩ := executeWithin_of_setUp h
    rw [he, Option.map_map]
    congr 1
    funext fault
    obtain ⟨hstatus, hfault, -⟩ := hreport fault
    show ((e fault).report.status, (e fault).report.fault) = _
    rw [hstatus, hfault]

end Execution

/-! ### Cases that differ in teardown -/

/-- Related cases do the same until teardown, and stay related. -/
structure AlikeBeforeTeardown {σ τ : Type} [TestCase σ] [TestCase τ] (R : σ → τ → Prop) :
    Prop where
  fault : ∀ root {a b}, R a b → (TestCase.setup root a).fault = (TestCase.setup root b).fault
  cancelsRoot : ∀ root {a b}, R a b →
    (TestCase.setup root a).cancelsRoot = (TestCase.setup root b).cancelsRoot
  state : ∀ root {a b}, R a b → R (TestCase.setup root a).state (TestCase.setup root b).state
  run : ∀ {a b}, R a b → (TestCase.run a).Alike R (TestCase.run b)

namespace AlikeBeforeTeardown

variable {σ τ : Type} [TestCase σ] [TestCase τ] {R : σ → τ → Prop}
  {budget : Option Duration} {caller : Token} {tokens : Tokens} {a : σ} {b : τ}

/-- Related cases end their runs the same. -/
theorem how_eq (hR : AlikeBeforeTeardown R) (h : R a b) :
    (Ran.afterSetup budget caller tokens a).how = (Ran.afterSetup budget caller tokens b).how := by
  have hstate := hR.state (tokens.isCancelled Tokens.root) h
  simp only [Ran.afterSetup, Ran.under, Brief.leaves, hR.cancelsRoot _ h]
  exact ((hR.run hstate).perform ⟨hstate, .refl _ _, rfl, rfl⟩).1

/-- Related cases get the same status, code and error. -/
theorem report_eq (hR : AlikeBeforeTeardown R) (h : R a b) :
    (executeWithin budget caller tokens a).map
        (fun e => (e.report.status, e.report.code, e.report.error))
      = (executeWithin budget caller tokens b).map fun e =>
        (e.report.status, e.report.code, e.report.error) := by
  have hfault : (Ran.afterSetup budget caller tokens a).fault? budget
      = (Ran.afterSetup budget caller tokens b).fault? budget := by
    simp only [Ran.fault?, hR.how_eq h]
  have hreports : (executeWithin budget caller tokens a).map
        (fun e => (e.report.status, e.report.fault))
      = (executeWithin budget caller tokens b).map fun e =>
        (e.report.status, e.report.fault) := by
    rw [executeWithin_map_report, executeWithin_map_report, hR.fault _ h, hfault]
  -- the code and the error are read off the fault
  have hread := congrArg (Option.map fun p : Status × Option CaseFault =>
    (p.1, p.2.map (·.code), p.2.map (·.message))) hreports
  rw [Option.map_map, Option.map_map] at hread
  exact hread

end AlikeBeforeTeardown

/-- The same case with another fault of its teardown. -/
def Scripted.withTeardown (fault : Option CaseFault) : Scripted → Scripted
  | .full s d => .full { s with teardown := fault } d
  | .plain name f => .plain name f

/-- The run of a script does the same whatever the teardown is. -/
theorem Scripted.alike_runScript {R : Scripted → Scripted → Prop} {s : Script}
    (fault : Option CaseFault) (hR : ∀ d, R (.full s d) (.full { s with teardown := fault } d))
    (d : Details) : (runScript s d).Alike R (runScript { s with teardown := fault } d) := by
  refine .look _ fun cancelled => .keep (hR _) (.sleepFor ?_ s.sleep)
  refine .onlyIf ?_ s.cancelsRoot (.cancel _)
  refine .onlyIf ?_ s.cancelsOwn (.cancel _)
  refine .onlyIf ?_ s.hangs (.await _)
  exact .finish s.run (hR _)

/-- The script of a case says what its teardown does, and nothing else depends on that. -/
theorem Scripted.alike_withTeardown (fault : Option CaseFault) :
    AlikeBeforeTeardown fun a b : Scripted => b = a.withTeardown fault where
  fault := by rintro root (⟨s, d⟩ | ⟨name, f⟩) _ rfl <;> rfl
  cancelsRoot := by rintro root (⟨s, d⟩ | ⟨name, f⟩) _ rfl <;> rfl
  state := by rintro root (⟨s, d⟩ | ⟨name, f⟩) _ rfl <;> rfl
  run := by
    rintro (⟨s, d⟩ | ⟨name, f⟩) _ rfl
    · exact alike_runScript fault (fun _ => rfl) d
    · exact .finish f rfl

/-! ### The verdict -/

/-- **The verdict on a test case.**  Only a run without a budget can keep a case from its report.
All statuses that are requested may follow the ones before them, and the last is terminal.  A case
whose setup fails has failed and nothing else happens to it; every other case runs once, is judged
by what its run returned, or as failed with the code 3002 when the budget was over, and is then torn
down once in the state that the run left.  A code and an error are reported exactly if the case is
no success, and the status, the code and the error do not depend on teardown. -/
theorem execution_is_judged {σ : Type} [TestCase σ] (budget : Option Duration) (caller : Token)
    (tokens : Tokens) (case : σ) :
    let b := TestCase.setup (tokens.isCancelled Tokens.root) case
    let r := Ran.afterSetup budget caller tokens case
    (r.how = .never → budget = none) ∧
    (executeWithin budget caller tokens case = none ↔ b.fault = none ∧ r.how = .never) ∧
    (∀ e, executeWithin budget caller tokens case = some e →
      (∀ now next, .requested now next ∈ e.trace → now.transition next = .ok next) ∧
      e.report.status.isTerminal ∧
      (e.report.code.isSome ↔ e.report.status ≠ .success) ∧
      (e.report.error.isSome ↔ e.report.status ≠ .success) ∧
      (∀ f, b.fault = some f →
        e.report.status = .failed ∧ e.report.fault = some f ∧ e.case = b.state ∧
        e.trace = [.requested .pending .running, .setUp, .requested .running .failed]) ∧
      (b.fault = none →
        (r.how = .returned none → e.report.status = .success ∧ e.report.fault = none) ∧
        (∀ f, r.how = .returned (some f) →
          e.report.status = Status.classify f.code ∧ e.report.fault = some f) ∧
        (r.how = .expired → e.report.status = .failed ∧ e.report.code = some 3002 ∧
          ∃ d, budget = some d ∧ e.report.fault = some (.timedOut d)) ∧
        e.case = (TestCase.teardown (r.tokens.isCancelled Tokens.root) (r.tokens.isCancelled r.own)
          r.scene.state).state ∧
        e.trace = [.requested .pending .running, .setUp, .ran,
          .requested .running e.report.status, .tornDown])) ∧
    ∀ {τ : Type} [TestCase τ] {R : σ → τ → Prop} (other : τ), AlikeBeforeTeardown R → R case other →
      (executeWithin budget caller tokens other).map
          (fun e => (e.report.status, e.report.code, e.report.error))
        = (executeWithin budget caller tokens case).map fun e =>
          (e.report.status, e.report.code, e.report.error) := by
  intro b r
  refine ⟨Ran.eq_none_of_never, ?_, fun e he => ?_, fun other hR h => ?_⟩
  · cases hfault : b.fault with
    | some f =>
      obtain ⟨e, he, -⟩ := executeWithin_of_fault hfault
      rw [he]
      exact ⟨nofun, nofun⟩
    | none =>
      obtain ⟨e, he, -⟩ := executeWithin_of_setUp hfault
      rw [he, Option.map_eq_none_iff, and_iff_right rfl]
      exact Ran.fault?_under_eq_none_iff
  · have hpresent := isSome_fault_iff he
    have hcode : e.report.code.isSome = e.report.fault.isSome := Option.isSome_map
    have herror : e.report.error.isSome = e.report.fault.isSome := Option.isSome_map
    refine ⟨fun _ _ => transition_of_requested he, isTerminal_of_executeWithin he,
      by rw [hcode, hpresent], by rw [herror, hpresent], ?_⟩
    obtain ⟨f, hb, hstatus, hfault, hcase, htrace⟩ | ⟨hb, hfault, hstatus, hcase, htrace⟩ :=
      executeWithin_cases he
    · refine ⟨fun f' hf' => ?_, fun hnone => ?_⟩
      · obtain rfl : f = f' := Option.some.inj (hb.symm.trans hf')
        exact ⟨hstatus, hfault, hcase, htrace⟩
      · exact absurd (hb.symm.trans hnone) nofun
    · refine ⟨fun f hf => absurd (hb.symm.trans hf) nofun, fun _ => ⟨fun hhow => ?_,
        fun f hhow => ?_, fun hhow => ?_, hcase, htrace⟩⟩
      · have hnone := Option.some.inj (hfault.symm.trans (Ran.fault?_of_returned hhow))
        rw [hstatus, hnone]
        exact ⟨rfl, rfl⟩
      · have hsome := Option.some.inj (hfault.symm.trans (Ran.fault?_of_returned hhow))
        rw [hstatus, hsome]
        exact ⟨rfl, rfl⟩
      · obtain ⟨d, rfl⟩ := Ran.exists_of_expired hhow
        have hsome := Option.some.inj (hfault.symm.trans (Ran.fault?_of_expired hhow))
        rw [hstatus, Report.code, hsome]
        exact ⟨rfl, rfl, d, rfl, rfl⟩
  · exact (hR.report_eq h).symm

/-- A case that sleeps for two seconds. -/
def Scripted.nap : Scripted := .full { name := "nap", sleep := some (.ofSecs 2) } .empty

/-- Within one second the nap expires, and a teardown that fails does not show in the report. -/
theorem execution_is_judged_nap :
    (∃ e, executeWithin (some (.ofSecs 1)) Tokens.root (.start false) Scripted.nap = some e ∧
      e.report.status = .failed ∧ e.report.code = some 3002 ∧
      e.trace = [.requested .pending .running, .setUp, .ran, .requested .running .failed,
        .tornDown]) ∧
    (executeWithin (some (.ofSecs 1)) Tokens.root (.start false)
        (Scripted.nap.withTeardown (some (.failed "cleanup")))).map
          (fun e => (e.report.status, e.report.code, e.report.error))
      = some (.failed, some 3002, some "Test exceeded its time budget of 1s") := by
  obtain ⟨-, -, hreport, hteardown⟩ :=
    execution_is_judged (some (.ofSecs 1)) Tokens.root (.start false) Scripted.nap
  obtain ⟨-, -, -, -, -, hran⟩ := hreport _ rfl
  obtain ⟨-, -, hexpired, -, htrace⟩ := hran rfl
  obtain ⟨hstatus, hcode, -⟩ := hexpired rfl
  refine ⟨⟨_, rfl, hstatus, hcode, ?_⟩, ?_⟩
  · rw [hstatus] at htrace
    exact htrace
  · exact hteardown _ (Scripted.alike_withTeardown (some (.failed "cleanup"))) rfl

end EmojiCatalog
