import EmojiCatalog.TestCase.Execution
/-!
Batches of test cases.

A batch executes its cases one after the other and in order, each within the same budget and under a
token of its own below the root, and then sums up the verdicts.  Whatever becomes of a case, the
next one is executed.  The cases of a batch stay in the states in which they were left, so a batch
can be executed again.

A summary leaves the times out, that of all cases and their average.  The program takes the average
over the number of cases as a word of 32 bits; that the number fits into such a word is assumed.
-/

namespace EmojiCatalog

/-! ### Summaries -/

/-- The verdicts on some cases, summed up. -/
structure Summary where
  total : Nat
  /-- How many cases have each status, for every status that some case has, in order. -/
  counts : List (Status × Nat)
  deriving DecidableEq, Repr

namespace Summary

/-- The summary of some reports. -/
def ofReports (reports : List Report) : Summary where
  total := reports.length
  counts := Status.all.filterMap fun s =>
    match reports.countP (·.status = s) with
    | 0 => none
    | n => some (s, n)

/-- How many cases have a status. -/
def count (s : Summary) (status : Status) : Nat := (s.counts.lookup status).getD 0

/-- The percentage of successful cases. -/
def successRate (s : Summary) : Float :=
  if s.total = 0 then 0 else (s.count .success).toFloat / s.total.toFloat * 100

end Summary

/-! ### Batches -/

/-- Cases to be executed, and the budget of each. -/
structure Batch (σ : Type) where
  cases : List σ := []
  budget : Duration := .ofSecs 30

/-- A batch that has been executed. -/
structure BatchRun (σ : Type) where
  batch : Batch σ
  reports : List Report
  tokens : Tokens
  events : List Log.Event

namespace BatchRun

/-- The summary of all reports. -/
def summary {σ : Type} (r : BatchRun σ) : Summary := .ofReports r.reports

end BatchRun

namespace Batch

variable {σ : Type} [TestCase σ]

/-- The event on a case added to a batch. -/
def additionEvent (case : σ) : Log.Event :=
  ⟨.info, "Test case registered", [caseField (TestCase.name case)]⟩

/-- Adds a case at the end. -/
def add (b : Batch σ) (case : σ) : Batch σ := { b with cases := b.cases ++ [case] }

/-- The event before the case at a place. -/
def caseEvent (index total : Nat) (case : σ) : Log.Event :=
  ⟨.info, "Executing test",
    [("index", .nat (index + 1)), ("total", .nat total), caseField (TestCase.name case)]⟩

/-- Executes the case at a place, under a new token below the root. -/
def executeAt (budget : Duration) (index total : Nat) (tokens : Tokens) (case : σ) :
    Option (Execution σ) := do
  let e ← executeWithin (some budget) tokens.fresh (tokens.child Tokens.root) case
  return { e with events := caseEvent index total case :: e.events }

/-- Executes cases from a place on. -/
def executeFrom (budget : Duration) (total : Nat) :
    Nat → Tokens → List σ → Option (List (Execution σ) × Tokens)
  | _, tokens, [] => some ([], tokens)
  | index, tokens, case :: rest => do
    let e ← executeAt budget index total tokens case
    let (es, tokens) ← executeFrom budget total (index + 1) e.tokens rest
    return (e :: es, tokens)

/-- The event at the start of a batch. -/
def startEvent (count : Nat) : Log.Event :=
  ⟨.info, "Starting test execution", [("cases", .nat count)]⟩

/-- The event at the end of a batch. -/
def endEvent (s : Summary) : Log.Event :=
  ⟨.info, "All tests completed",
    [("total", .nat s.total), ("success_rate", .real s.successRate), Log.succeeded]⟩

/-- Executes all cases. -/
def execute (b : Batch σ) (tokens : Tokens) : Option (BatchRun σ) := do
  let (es, tokens) ← executeFrom b.budget b.cases.length 0 tokens b.cases
  let reports := es.map (·.report)
  return {
    batch := { b with cases := es.map (·.case) }
    reports := reports
    tokens := tokens
    events := startEvent b.cases.length :: es.flatMap (·.events)
      ++ [endEvent (.ofReports reports)] }

end Batch

end EmojiCatalog
