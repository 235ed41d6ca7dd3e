import EmojiCatalog.CommandLine.Command
import EmojiCatalog.TestCase.Batch
import EmojiCatalog.Validation
/-!
Carrying out a command.

`Command.perform` is a function of the command and of some readings: the time, the time that the
work takes, the memory, stamps for new records, and the order in which producers and workers go on
beside the command.  It says what to print, what to note beside the log, how the command failed if
it did, and which events were logged.  All commands work on the built-in catalog with the default
settings, under which every stream can be started.
-/

namespace EmojiCatalog.CommandLine

open Json

/-! ### Readings and results -/

/-- What a command reads from outside. -/
structure Readings where
  now : Instant := .epoch
  /-- How long the work of the command takes. -/
  elapsed : Duration := .zero
  /-- The stamp of each record, by its number. -/
  stamp : Nat → Stamp := fun _ => default
  memory : Option MemoryUsage := none
  /-- The number of live tasks beside the producers; one of them waits for an interrupt. -/
  otherTasks : Nat := 1
  /-- How many steps the producer makes at most before each phase of a call for the next record. -/
  pace : List Nat := []
  /-- The workers of a pool that make a step before all take turns. -/
  workerSteps : List Nat := []

/-- Why a command failed. -/
structure Failure where
  message : String
  cause : Option String := none
  deriving DecidableEq, Repr

/-- A text in which every line is indented by four. -/
def indented (s : String) : String :=
  String.ofList (' ' :: ' ' :: ' ' :: ' ' :: s.toList.flatMap fun c =>
    if c = '\n' then ['\n', ' ', ' ', ' ', ' '] else [c])

/-- The text of a failure. -/
def Failure.text (f : Failure) : String :=
  "Error: " ++ f.message ++
    match f.cause with
    | some cause => "\n\nCaused by:\n" ++ indented cause
    | none => ""

/-- What a command has done. -/
structure Performance where
  /-- The text to be printed. -/
  output : String := ""
  /-- The text to be noted beside the log. -/
  notice : String := ""
  failure : Option Failure := none
  events : List Log.Event := []

/-- The exit code after a command. -/
def Performance.exitCode (p : Performance) : Nat := if p.failure.isSome then 1 else 0

/-- The events of a command that are logged at a level. -/
def Performance.logged (p : Performance) (level : Log.Level) : List Log.Event :=
  p.events.filter fun e => e.level.rank ≤ level.rank

/-- Lines of text, each with its end. -/
def unlines (lines : List String) : String := String.join (lines.map (· ++ "\n"))

/-! ### Search -/

/-- A payload that holds nothing. -/
def noPayload : Payload Unit where
  make _ _ := ()

/-- The line of a hit. -/
def hitLine (h : Hit) : String :=
  "  " ++ h.item ++ "  " ++ h.category ++ "/" ++ h.subcategory ++ "  (relevance "
    ++ toString h.relevance ++ ")"

/-- The lines of some hits for a query. -/
def hitLines (text : String) : List Hit → List String
  | [] => ["No results for: " ++ text]
  | hits => ("Found " ++ toString hits.length ++ " results:") :: "" :: hits.map hitLine

/-- Searches the catalog and prints the hits. -/
def performSearch (q : Query) : Performance :=
  match (Processor.ofCatalog .builtin {} noPayload).search q with
  | (.ok hits, p) => { output := unlines (hitLines q.text hits), events := p.events.toList }
  | (.error f, p) =>
    { failure := some ⟨"Search failed for: " ++ q.text, some f.message⟩
      events := p.events.toList }

/-! ### Streams -/

/-- The metrics of a command. -/
def Readings.metrics (r : Readings) : Metrics where
  memory := r.memory
  liveTasks := .producers
  otherTasks := r.otherTasks

/-- A processor that names the subcategory of every entry. -/
def streamProcessor (r : Readings) : Processor String :=
  .ofCatalog .builtin {} { Payload.subcategory with stamp := r.stamp } r.metrics

/-- Whether so many records are as many as the limit allows. -/
def reaches (printed : Nat) : Option Nat → Bool
  | some limit => limit ≤ printed
  | none => false

/-- Takes records of a run at a pace until the limit is reached, of which some were printed before,
and at most so many.  Reaching the limit cancels the token of the run. -/
def takeRecords (limit : Option Nat) (token : Token) : Nat → Nat → List Nat → Processor String →
    Nat → List (Record String) × Option Fault × Processor String
  | 0, _, _, p, _ => ([], none, p)
  | n + 1, printed, pace, p, i =>
    match p.nextAt pace i with
    | (none, _, p) => ([], none, p)
    | (some (.error f), _, p) => ([], some f, p)
    | (some (.ok record), pace, p) =>
      if reaches (printed + 1) limit then ([record], none, p.cancel token)
      else
        let (records, fault, p) := takeRecords limit token n (printed + 1) pace p i
        (record :: records, fault, p)

/-- The failure of a stream. -/
def interrupted (f : Fault) : Failure := ⟨"Stream interrupted", some f.message⟩

/-- The records that are printed under a limit, the fault that ended the stream, and the processor
after it. -/
def streamRecords (limit : Option Nat) (r : Readings) :
    List (Record String) × Option Fault × Processor String :=
  let p := streamProcessor r
  takeRecords limit p.tokens.fresh (p.catalog.entries.length + 2) 0 r.pace
    (p.startRun Tokens.root) 0

/-- The line of a record. -/
def recordLine (record : Record String) : String := (Record.codec .text).encode record

/-- Streams the catalog and prints the records. -/
def performStream (limit : Option Nat) (r : Readings) : Performance :=
  let (records, fault, p) := streamRecords limit r
  let output := unlines (records.map recordLine)
  let events := (p.dropRun 0).settle.events.toList
  match fault with
  | some f => { output := output, failure := some (interrupted f), events := events }
  | none =>
    { output := output
      notice := unlines [toString records.length ++ " records"]
      events := events }

/-- Streams the catalog and prints the statistics. -/
def performStats (r : Readings) : Performance :=
  match (streamProcessor r).streamAll Tokens.root false with
  | (.error f, p) => { failure := some (interrupted f), events := p.events.toList }
  | (.ok _, p) =>
    let (stats, p) := p.settle.stats r.now
    match stats.tally.verify with
    | .error f => { failure := some ⟨f.message, none⟩, events := p.events.toList }
    | .ok () =>
      { output := unlines [(Stats.codec.write stats).pretty], events := p.events.toList }

/-! ### Pools -/

/-- The lines of a pool's report. -/
def poolLines (r : PoolReport) : List String :=
  ["Workers:      " ++ toString r.outcome.workers.length,
    "Queries:      " ++ toString r.outcome.totalQueries,
    "Successful:   " ++ toString r.outcome.totalSuccess,
    "Errors:       " ++ toString r.outcome.totalErrors]
  ++ (if 0 < r.outcome.failedWorkers then
      ["Failed workers: " ++ toString r.outcome.failedWorkers] else [])
  ++ ["Elapsed:      " ++ r.elapsed.text,
    "Queries/sec:  " ++ String.ofList (Decimal.onePlace r.queriesPerSecond)]
  ++ (if r.outcome.cancelled then ["(cancelled before completion)"] else [])

/-- Runs a pool and prints its report. -/
def performBench (workers queries : Nat) (r : Readings) : Performance :=
  let (outcome, p) :=
    (Processor.ofCatalog .builtin {} noPayload).runQueries workers queries false r.workerSteps
  { output := unlines (poolLines (.after outcome r.elapsed)), events := p.events.toList }

/-! ### Validation -/

/-- The document of a report on a case that took some time. -/
def reportDocument (time : Duration) (r : Report) : Value :=
  .object ([("name", .text r.name), ("status", Status.codec.write r.status),
    ("duration", Duration.codec.write time), ("details", .object r.details.entries)]
    ++ match r.fault with
      | some f => [("error", .text f.message), ("code", .whole f.code.toNat)]
      | none => [])

/-- The document of a summary of cases that took some time together. -/
def summaryDocument (time : Duration) (s : Summary) : Value :=
  .object [("total_tests", .whole s.total), ("total_duration", Duration.codec.write time),
    ("average_duration", Duration.codec.write ⟨time.nanos / s.total⟩),
    ("status_counts", .object (s.counts.map fun p => (p.1.name, .whole p.2))),
    ("success_rate", .real s.successRate)]

/-- The line of a report. -/
def reportLine (time : Duration) (r : Report) : String :=
  "  [" ++ r.status.label ++ "] " ++ r.name ++ " (" ++ time.text ++ ")" ++
    match r.fault with
    | some f => " - " ++ f.message
    | none => ""

/-- A text filled with blanks up to a width. -/
def padRight (width : Nat) (s : String) : String :=
  s ++ String.ofList (List.replicate (width - s.length) ' ')

/-- The lines of a summary. -/
def summaryLines (time : Duration) (s : Summary) : List String :=
  ("Total tests:      " ++ toString s.total)
  :: (Status.all.filter (·.isTerminal)).map (fun status =>
      padRight 17 (status.label ++ ":") ++ " " ++ toString (s.count status))
  ++ ["Success rate:     " ++ String.ofList (Decimal.onePlace s.successRate) ++ "%",
    "Total duration:   " ++ time.text]

/-- The text of an executed batch: a document, or lines. -/
def batchText {σ : Type} (asJson : Bool) (time : Duration) (run : BatchRun σ) : String :=
  if asJson then
    unlines [Value.pretty (.object [("summary", summaryDocument time run.summary),
      ("results", .array (run.reports.map (reportDocument time)))])]
  else
    unlines (["Validation Results", "==================", ""]
      ++ run.reports.map (reportLine time) ++ "" :: summaryLines time run.summary)

/-- Executes the validation suite within a budget and prints the reports. -/
def performValidate (timeoutSecs : Nat) (asJson : Bool) (r : Readings) : Performance :=
  let readings : Validation.Readings :=
    { now := r.now, streamTime := r.elapsed, searchTime := r.elapsed, poolTime := r.elapsed
      pace := r.pace, workerSteps := r.workerSteps }
  let (initial, suite) := (Validation.ofConfig {} r.metrics).takeEvents
  let batch : Batch (Validation String) :=
    { cases := [{ suite with readings := readings }], budget := .ofSecs timeoutSecs }
  let added := initial ++ batch.cases.map Batch.additionEvent
  match Validation.executeBatch? batch (.start false) with
  | none => { events := added }
  | some run =>
    let failed := run.summary.count .failed
    { output := batchText asJson r.elapsed run
      failure :=
        if 0 < failed then some ⟨toString failed ++ " validation case(s) failed", none⟩ else none
      events := added ++ run.events }

/-! ### All commands -/

/-- Carries out a command. -/
def Command.perform (r : Readings) : Command → Performance
  | validate timeoutSecs asJson => performValidate timeoutSecs asJson r
  | search text category subcategory limit => performSearch ⟨text, category, subcategory, limit⟩
  | stream limit => performStream limit r
  | stats => performStats r
  | bench workers queries => performBench workers queries r

end EmojiCatalog.CommandLine
