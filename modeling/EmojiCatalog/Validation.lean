import EmojiCatalog.Documents
import EmojiCatalog.TestCase.Batch
/-!
The validation suite: a test case that puts a processor through its paces.

Five checks follow one another: searches with known numbers of hits, a whole stream, the statistics,
many searches in a row, and a pool of workers.  Each check that gets so far writes its findings
down, and the first fault ends the run.  Hits other than expected are written down, but are no
fault.

The processor of the suite works under the token of the run: before every check its own root token
takes over whether that token is cancelled, and when a check cancels the processor's root token, the
root token of all cases is cancelled too.

The producer of the stream and the workers of the pool go on beside the checks.  In which order is
part of the readings: a pace for the stream and the first steps of the workers.  So a suite can be
executed in every order.  A producer that is left behind by a check comes to its end before anything
else happens.

A suite whose stream cannot be started breaks off, and the program with it: there is no report
(`Validation.execute?`, `Validation.executeBatch?`).
-/

namespace EmojiCatalog

open Json

/-! ### Findings -/

/-- A search with a known number of hits. -/
structure SearchCheck where
  query : String
  expected : Nat
  actual : Nat
  deriving DecidableEq, Repr

namespace SearchCheck

/-- Whether a search had the expected number of hits. -/
def passed (c : SearchCheck) : Bool := c.actual == c.expected

/-- The event on a search. -/
def event (c : SearchCheck) : Log.Event :=
  if c.passed then
    ⟨.info, "Search check passed",
      [("query", .text c.query), ("actual", .nat c.actual), Log.succeeded]⟩
  else
    ⟨.warn, "Search check mismatch",
      [("query", .text c.query), ("expected", .nat c.expected), ("actual", .nat c.actual)]⟩

/-- The document of a search. -/
def document (c : SearchCheck) : Value :=
  .object [("query", .text c.query), ("expected", .whole c.expected), ("actual", .whole c.actual),
    ("passed", .flag c.passed)]

end SearchCheck

/-- What the checks read from outside: clocks and the memory, and the order in which others go on
beside them. -/
structure Validation.Readings where
  now : Instant := .epoch
  streamTime : Duration := .zero
  searchTime : Duration := .zero
  poolTime : Duration := .zero
  /-- By how many bytes the memory grew while another processor was made. -/
  memoryGrowth : Option Nat := none
  /-- How many steps the producer makes at most before each phase of the stream check's calls. -/
  pace : List Nat := []
  /-- The workers of the pool that make a step before all take turns. -/
  workerSteps : List Nat := []

/-- What the checks have found so far. -/
structure Findings where
  searches : Option (List SearchCheck) := none
  /-- The number of records, and how long they took. -/
  stream : Option (Nat × Duration) := none
  statistics : Option Stats := none
  /-- How long many searches took, and the growth of the memory. -/
  performance : Option (Duration × Option Nat) := none
  pool : Option PoolReport := none

namespace Findings

/-- So many per second, or none when there was no time. -/
def rate (count : Nat) (d : Duration) : Float :=
  if d.nanos = 0 then 0 else count.toFloat / d.seconds

/-- The document of a stream. -/
def streamDocument (found : Nat × Duration) : Value :=
  .object [("processed_count", .whole found.1), ("duration_ms", .whole found.2.millis),
    ("rate", .real (rate found.1 found.2))]

/-- The document of many searches. -/
def performanceDocument (found : Duration × Option Nat) : Value :=
  .object (("search_100_queries_ms", .whole found.1.millis) ::
    match found.2 with
    | some bytes => [("memory_delta_bytes", .whole bytes)]
    | none => [])

/-- Puts a finding under its name, if there is one. -/
def put {α : Type} (name : String) (document : α → Value) (found : Option α) (d : Details) :
    Details :=
  match found with
  | some x => d.insert name (document x).sorted
  | none => d

/-- The findings as details of a case. -/
def details (f : Findings) : Details :=
  (KeyMap.empty : Details)
  |> put "search_tests" (fun checks => .array (checks.map (·.document))) f.searches
  |> put "stream_processing" streamDocument f.stream
  |> put "statistics" Stats.codec.write f.statistics
  |> put "performance" performanceDocument f.performance
  |> put "concurrent_processing" PoolReport.codec.write f.pool

end Findings

/-! ### The suite -/

/-- A processor to be validated, with what was found so far. -/
structure Validation (α : Type) where
  processor : Processor α
  readings : Validation.Readings := {}
  findings : Findings := {}
  /-- Whether the run has broken off because the stream could not be started. -/
  hasBrokenOff : Bool := false

namespace Validation

variable {α : Type}

/-- The suite over the built-in catalog. -/
def ofConfig (config : Config) (metrics : Metrics := {}) : Validation String where
  processor := .ofCatalog .builtin config .subcategory metrics

/-- Puts the processor under a token that is cancelled or not. -/
def under (v : Validation α) (cancelled : Bool) : Validation α :=
  { v with processor := { v.processor with tokens := .start cancelled, runs := [] } }

/-- Whether the root token of the processor is cancelled. -/
def isCancelled (v : Validation α) : Bool := v.processor.tokens.isCancelled Tokens.root

/-- Takes the events out of the processor's log. -/
def takeEvents (v : Validation α) : List Log.Event × Validation α :=
  (v.processor.events.toList, { v with processor := { v.processor with events := #[] } })

/-- Adds an event to the processor's log. -/
def announce (v : Validation α) (message : String) (fields : List (String × Log.Field) := []) :
    Validation α :=
  { v with processor := v.processor.note [⟨.info, message, fields⟩] }

/-- A check: a fault or none, and the suite after it. -/
abbrev Check (α : Type) := Validation α → Option CaseFault × Validation α

/-! ### Searches -/

/-- Queries with the number of hits that they have in the built-in catalog. -/
def expectations : List (String × Nat) := [("happy", 10), ("animal", 10), ("face", 0), ("", 0)]

/-- The query of a search check. -/
def checkedQuery (text : String) : Query where
  text := text
  limit := 20

/-- Searches for some queries, as long as no search fails. -/
def searchAll (p : Processor α) : List (String × Nat) →
    Except Fault (List SearchCheck) × Processor α
  | [] => (.ok [], p)
  | (query, expected) :: rest =>
    match p.search (checkedQuery query) with
    | (.error f, p) => (.error f, p)
    | (.ok hits, p) =>
      let check : SearchCheck := ⟨query, expected, hits.length⟩
      let (result, p) := searchAll (p.note [check.event]) rest
      (result.map (check :: ·), p)

/-- Checks the numbers of hits. -/
def checkSearch : Check α := fun v =>
  let v := v.announce "Testing search"
  match searchAll v.processor expectations with
  | (.error f, p) => (some (.processor f), { v with processor := p })
  | (.ok checks, p) =>
    (none, { v with processor := p, findings := { v.findings with searches := some checks } })

/-! ### The stream -/

/-- What is wrong with a record. -/
def flaw? (r : Record α) : Option String :=
  if r.item.isEmpty then some "missing item in processed record"
  else if r.category.isEmpty then some "missing category in processed record"
  else if r.metadata.length = 0 then some "invalid metadata in processed record"
  else none

/-- The number of records from one progress event to the next. -/
def sampleInterval : Nat := 50

/-- The event on a record, which only some cause. -/
def streamEvents (processed : Nat) (r : Record α) : List Log.Event :=
  if processed % sampleInterval = 0 then
    [⟨.debug, "Stream check progress", [("processed", .nat processed), ("item", .text r.item)]⟩]
  else []

/-- Takes the records of a run at a pace, as long as they are in order and at most so many.  The
result is their number, counted from the number of those before. -/
def takeAll : Nat → Nat → List Nat → Processor α → Nat → Except CaseFault Nat × Processor α
  | 0, processed, _, p, _ => (.ok processed, p)
  | n + 1, processed, pace, p, i =>
    match p.nextAt pace i with
    | (none, _, p) => (.ok processed, p)
    | (some (.error f), _, p) => (.error (.processor f), p)
    | (some (.ok r), pace, p) =>
      match flaw? r with
      | some reason => (.error (.failed reason), p)
      | none => takeAll n (processed + 1) pace (p.note (streamEvents (processed + 1) r)) i

/-- Checks every record of a run. -/
def checkRecords (i : Nat) : Check α := fun v =>
  let (result, p) :=
    takeAll (v.processor.catalog.entries.length + 2) 0 v.readings.pace v.processor i
  let v := { v with processor := (p.dropRun i).settle }
  match result with
  | .error f => (some f, v)
  | .ok processed =>
    let v := v.announce "Stream check completed" [("processed", .nat processed), Log.succeeded]
    (none, { v with
      findings := { v.findings with stream := some (processed, v.readings.streamTime) } })

/-- Checks every record of a whole stream, which breaks the run off if it cannot be started. -/
def checkStream : Check α := fun v =>
  let v := v.announce "Testing stream processing"
  match v.processor.start? Tokens.root with
  | some p => checkRecords v.processor.runs.length { v with processor := p }
  | none => (none, { v with hasBrokenOff := true })

/-! ### Statistics -/

/-- Checks that the statistics add up. -/
def checkStatistics : Check α := fun v =>
  let v := v.announce "Testing statistics"
  let (stats, p) := v.processor.stats v.readings.now
  let v := { v with processor := p }
  match stats.tally.verify with
  | .error f => (some (.processor f), v)
  | .ok () =>
    let v := v.announce "Statistics check passed" [("total", .nat stats.tally.total), Log.succeeded]
    (none, { v with findings := { v.findings with statistics := some stats } })

/-! ### Many searches -/

/-- The number of searches in a row. -/
def searchCount : Nat := 100

/-- Searches may take so long before a warning is given. -/
def searchTimeLimit : Duration := .ofSecs 1

/-- One of many queries. -/
def repeatedQuery (i : Nat) : Query where
  text := "test_query_" ++ toString i
  limit := 10

/-- Searches so often, as long as no search fails. -/
def searchRepeatedly (p : Processor α) : List Nat → Except Fault Unit × Processor α
  | [] => (.ok (), p)
  | i :: rest =>
    match p.search (repeatedQuery i) with
    | (.error f, p) => (.error f, p)
    | (.ok _, p) => searchRepeatedly p rest

/-- The event after many searches. -/
def performanceEvent (time : Duration) : Log.Event :=
  if searchTimeLimit.nanos < time.nanos then
    ⟨.warn, "Search performance warning", [("queries", .nat searchCount)]⟩
  else ⟨.info, "Search performance good", [("queries", .nat searchCount), Log.succeeded]⟩

/-- Checks how long many searches take, and what another processor costs. -/
def checkPerformance : Check α := fun v =>
  let v := v.announce "Testing search performance"
  match searchRepeatedly v.processor (List.range searchCount) with
  | (.error f, p) => (some (.processor f), { v with processor := p })
  | (.ok (), p) =>
    let p := p.note [performanceEvent v.readings.searchTime,
      Processor.initialEvent .builtin p.config]
    (none, { v with
      processor := p
      findings := { v.findings with
        performance := some (v.readings.searchTime, v.readings.memoryGrowth) } })

/-! ### The pool -/

/-- The number of workers. -/
def workerCount : Nat := 5

/-- The number of queries for each worker. -/
def queriesPerWorker : Nat := 20

/-- What is wrong with the outcome of a pool. -/
def poolFault? (o : PoolOutcome) : Option CaseFault :=
  if o.cancelled then some (.processor .cancelled)
  else if 0 < o.failedWorkers then
    some (.failed (toString o.failedWorkers ++ " query worker(s) panicked"))
  else if o.totalSuccess + o.totalErrors ≠ o.totalQueries then
    some (.processor (.invalidState
      (.queryMismatch o.totalSuccess o.totalErrors o.totalQueries)))
  else none

/-- Checks a pool of workers. -/
def checkPool : Check α := fun v =>
  let v := v.announce "Testing concurrent processing"
  let (outcome, p) := v.processor.runQueries workerCount queriesPerWorker v.isCancelled
    v.readings.workerSteps
  (poolFault? outcome, { v with
    processor := p
    findings := { v.findings with pool := some (.after outcome v.readings.poolTime) } })

/-! ### The run -/

/-- Makes a check, and goes on unless it has found a fault or has broken the run off. -/
def step (check : Check α) (rest : Validation α → Activity (Validation α)) (v : Validation α) :
    Activity (Validation α) :=
  .look .own fun cancelled =>
    let (fault, v) := check (v.under cancelled)
    let (events, v) := v.takeEvents
    .log events <|
    .onlyIf (v.isCancelled && !cancelled) (.cancel .root) <|
    match fault with
    | some f => .finish v (some f)
    | none => if v.hasBrokenOff then .finish v none else .keep v (rest v)

/-- Waits for others before a stream, unless the token is cancelled or there is no stream. -/
def awaitStream (v : Validation α) (rest : Activity (Validation α)) : Activity (Validation α) :=
  .look .own fun cancelled => .onlyIf (!cancelled && v.processor.config.canStream) .yield rest

/-- The five checks. -/
def run : Validation α → Activity (Validation α) :=
  step checkSearch fun v => v.awaitStream <|
  v.step checkStream <|
  step checkStatistics <|
  step checkPerformance <|
  step checkPool fun v => .finish v none

instance : TestCase (Validation α) where
  name _ := "Processor Validation Suite"
  run := run
  details _ v := v.findings.details

/-! ### Executions -/

/-- Executes a suite within a budget, if there is one.  There is no result when its run breaks
off. -/
def execute? (budget : Option Duration) (caller : Token) (tokens : Tokens) (v : Validation α) :
    Option (Execution (Validation α)) :=
  (executeWithin budget caller tokens v).filter (!·.case.hasBrokenOff)

/-- Executes a batch of suites.  There is no result when the run of one breaks off. -/
def executeBatch? (b : Batch (Validation α)) (tokens : Tokens) :
    Option (BatchRun (Validation α)) :=
  (b.execute tokens).filter (·.batch.cases.all (!·.hasBrokenOff))

end Validation

end EmojiCatalog
