import EmojiCatalog.Json.Value
import EmojiCatalog.KeyMap
import EmojiCatalog.TestCase.Activity
/-!
Test cases, and the way from setup through run to teardown.

A case is a state together with what it does in each phase.  Setup and teardown are brief: they
look at tokens only when they begin, change the state and may fail, but they do not wait.
`executeWithin` takes a case through its life and reports a verdict.  A case whose setup fails has
failed, whatever the fault, and neither runs nor is torn down.  Every other case is torn down after
its run, also when the run ran out of time, and nothing that teardown does changes the verdict.

With a budget the run gets a token of its own below the caller's.  When the budget is over this
token is cancelled, and the case has the fault `CaseFault.timedOut`.

The time that an execution takes is not reported.
-/

namespace EmojiCatalog

/-! ### Cases -/

/-- Results that a case records, by name. -/
abbrev Details := KeyMap Json.Value

/-- What setup or teardown does. -/
structure Brief (σ : Type) where
  state : σ
  fault : Option CaseFault := none
  events : List Log.Event := []
  cancelsRoot : Bool := false

/-- The field that names a case. -/
def caseField (name : String) : String × Log.Field := ("case", .text name)

/-- Setup that only says so. -/
def Brief.setup {σ : Type} (name : String) (state : σ) : Brief σ where
  state := state
  events := [⟨.debug, "Setting up test environment", [caseField name]⟩]

/-- Teardown that only says so. -/
def Brief.teardown {σ : Type} (name : String) (state : σ) : Brief σ where
  state := state
  events := [⟨.debug, "Cleaning up test environment", [caseField name]⟩]

/-- Types whose values are test cases. -/
class TestCase (σ : Type) where
  name : σ → String
  /-- Setup, given whether the root token is cancelled. -/
  setup (_root : Bool) (case : σ) : Brief σ := .setup (name case) case
  run : σ → Activity σ
  /-- Teardown, given whether the root token and the token of the run are cancelled. -/
  teardown (_root _own : Bool) (case : σ) : Brief σ := .teardown (name case) case
  /-- The results that are reported, given whether the root token is cancelled. -/
  details (_root : Bool) : σ → Details := fun _ => .empty

/-! ### Reports -/

/-- What is reported on a case. -/
structure Report where
  name : String
  status : Status
  details : Details
  /-- The fault of setup or of the run. -/
  fault : Option CaseFault

/-- What happens to a case from outside. -/
inductive Mark where
  | setUp
  | ran
  | tornDown
  /-- A status was to follow another. -/
  | requested (current next : Status)
  deriving DecidableEq, Repr

/-- A case on its way. -/
structure Progress (σ : Type) where
  case : σ
  tokens : Tokens
  status : Status := .pending
  /-- What has happened to the case, in order. -/
  trace : List Mark := []
  events : List Log.Event := []

/-- A case at its end. -/
structure Execution (σ : Type) where
  report : Report
  case : σ
  tokens : Tokens
  trace : List Mark
  events : List Log.Event

namespace Progress

variable {σ : Type}

/-- Adds events to the log. -/
def note (p : Progress σ) (events : List Log.Event) : Progress σ :=
  { p with events := p.events ++ events }

/-- Notes that something has happened to the case. -/
def mark (p : Progress σ) (m : Mark) : Progress σ := { p with trace := p.trace ++ [m] }

/-- Whether the root token is cancelled. -/
def rootCancelled (p : Progress σ) : Bool := p.tokens.isCancelled Tokens.root

/-- Moves to the next status; a move that is not allowed leaves the status as it is. -/
def request (p : Progress σ) (next : Status) : Progress σ :=
  let p := p.mark (.requested p.status next)
  match p.status.transition next with
  | .ok status => { p with status := status }
  | .error f => p.note [⟨.error, "Status transition rejected", [("error", .text f.message)]⟩]

/-- Takes over what setup or teardown has done. -/
def take (p : Progress σ) (b : Brief σ) : Progress σ :=
  { p.note b.events with
    case := b.state
    tokens := if b.cancelsRoot then p.tokens.cancel Tokens.root else p.tokens }

/-! ### The phases -/

variable [TestCase σ]

/-- Sets the case up. -/
def setUp (p : Progress σ) : Option CaseFault × Progress σ :=
  let b := TestCase.setup p.rootCancelled p.case
  (b.fault, (p.mark .setUp).take b)

/-- The token of the run, and the tokens with it: the caller's own without a budget, else a new one
below it. -/
def runToken (budget : Option Duration) (caller : Token) (tokens : Tokens) : Token × Tokens :=
  match budget with
  | none => (caller, tokens)
  | some _ => (tokens.fresh, tokens.child caller)

/-- Runs the case, unless it would never end.  The result is the fault, the token of the run, and
the case after it. -/
def run (budget : Option Duration) (caller : Token) (p : Progress σ) :
    Option (Option CaseFault × Token × Progress σ) :=
  let (own, tokens) := runToken budget caller p.tokens
  let (how, scene) :=
    (TestCase.run p.case).perform budget own { state := p.case, tokens := tokens }
  let p := { (p.mark .ran).note scene.events with case := scene.state, tokens := scene.tokens }
  match how, budget with
  | .returned fault, _ => some (fault, own, p)
  | .expired, some budget =>
    some (some (.timedOut budget), own, { p with tokens := p.tokens.cancel own })
  | .expired, none | .never, _ => none

/-- The event on a fault of the run. -/
def faultEvent (name : String) (f : CaseFault) : Log.Event :=
  match f.status with
  | .skipped => ⟨.info, "Test skipped", [caseField name, ("reason", .text f.message)]⟩
  | .warning => ⟨.warn, "Test warning", [caseField name, ("warning", .text f.message)]⟩
  | _ => ⟨.error, "Test failed", [caseField name, ("error", .text f.message)]⟩

/-- Gives the verdict on the run. -/
def judge (name : String) (fault : Option CaseFault) (p : Progress σ) : Progress σ :=
  match fault with
  | none =>
    (p.request .success).note
      [⟨.info, "Test completed successfully", [caseField name, Log.succeeded]⟩]
  | some f => (p.note [faultEvent name f]).request f.status

/-- Tears the case down after a run with the given token. -/
def tearDown (name : String) (own : Token) (p : Progress σ) : Progress σ :=
  let b := TestCase.teardown p.rootCancelled (p.tokens.isCancelled own) p.case
  let p := (p.mark .tornDown).take b
  match b.fault with
  | none => p
  | some f => p.note [⟨.warn, "Cleanup warning", [caseField name, ("error", .text f.message)]⟩]

/-- Reports on the case. -/
def conclude (name : String) (fault : Option CaseFault) (p : Progress σ) : Execution σ where
  report := ⟨name, p.status, TestCase.details p.rootCancelled p.case, fault⟩
  case := p.case
  tokens := p.tokens
  trace := p.trace
  events := p.events

end Progress

/-! ### The whole way -/

variable {σ : Type} [TestCase σ]

/-- Executes a case for a caller with the given token, its run within a budget if there is one.
There is no result when the run never ends, which needs a run without a budget. -/
def executeWithin (budget : Option Duration) (caller : Token) (tokens : Tokens) (case : σ) :
    Option (Execution σ) :=
  let name := TestCase.name case
  let p : Progress σ := { case := case, tokens := tokens }
  let p := (p.request .running).note [⟨.info, "Starting test execution", [caseField name]⟩]
  match p.setUp with
  | (some f, p) =>
    let p := p.note
      [⟨.error, "Setup failed", [caseField name, ("error", .text f.message)]⟩]
    some ((p.request .failed).conclude name (some f))
  | (none, p) =>
    match p.run budget caller with
    | none => none
    | some (fault, own, p) => some (((p.judge name fault).tearDown name own).conclude name fault)

/-- Executes a case without a budget. -/
def execute (caller : Token) (tokens : Tokens) (case : σ) : Option (Execution σ) :=
  executeWithin none caller tokens case

end EmojiCatalog
