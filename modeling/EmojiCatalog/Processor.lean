import EmojiCatalog.Catalog.Builtin
import EmojiCatalog.Config
import EmojiCatalog.Pool.Basic
import EmojiCatalog.Run.Consumer
import EmojiCatalog.Tally
/-!
The catalog processor: a catalog with its statistics, its stream runs and its tokens.

All runs of a processor share the catalog, the payload function, the statistics and the tree of
tokens; each has its own buffer, report slot and token.  `Processor.stepRun` lets the producer of
one run make one step and carries the step's effect out; any order of such steps, of consumers'
calls and of cancellations is a history of the processor.  `Processor.settle` lets all producers go
on until each is held up by a full buffer or has ended.

A run can be started only if its channel can be made (`Config.canStream`); `Processor.start?` and
`Processor.streamAll?` say so.
-/

namespace EmojiCatalog

/-- What the payload function does, given how often it was called before. -/
structure Payload (α : Type) where
  /-- The payload for an entry. -/
  make : Nat → Entry → α
  /-- The stamp of the record. -/
  stamp : Nat → Stamp := fun _ => default
  /-- Whether the call cancels the root token. -/
  cancels : Nat → Bool := fun _ => false

/-- The payload function that gives the name of the subcategory. -/
def Payload.subcategory : Payload String where
  make _ e := e.subcategory

/-- Memory in use. -/
structure MemoryUsage where
  rssBytes : Nat
  virtualBytes : Nat
  deriving DecidableEq, Repr

/-- The resident memory in whole mebibytes. -/
def MemoryUsage.rssMb (m : MemoryUsage) : Nat := m.rssBytes / 1024 / 1024

/-- How many tasks are alive, as far as a source can tell. -/
inductive LiveTasks where
  | unknown
  | fixed (n : Nat)
  /-- The producers that have not ended, and all other tasks of the program. -/
  | producers
  deriving DecidableEq, Repr

/-- Where readings of the process come from. -/
structure Metrics where
  memory : Option MemoryUsage := none
  liveTasks : LiveTasks := .unknown
  /-- The number of live tasks that are not producers of the processor. -/
  otherTasks : Nat := 0
  /-- Whether reading the memory cancels the root token. -/
  cancelsRoot : Bool := false
  deriving DecidableEq, Repr

/-- A copy of the statistics with readings of the process. -/
structure Stats where
  tally : Tally
  memory : Option MemoryUsage
  liveTasks : Option Nat
  timestamp : Instant
  deriving DecidableEq

/-- A catalog with its statistics, runs and tokens. -/
structure Processor (α : Type) where
  catalog : Catalog
  config : Config
  payload : Payload α
  metrics : Metrics := {}
  tally : Tally := .empty
  /-- How often the payload function was called. -/
  calls : Nat := 0
  tokens : Tokens := .start false
  runs : List (Run α) := []
  events : Array Log.Event := #[]

namespace Processor

variable {α : Type}

/-! ### Making a processor -/

/-- The event on a new processor. -/
def initialEvent (c : Catalog) (config : Config) : Log.Event :=
  ⟨.info, "Catalog initialized", [("source", .text config.sourceName),
    ("categories", .nat c.categories.length), ("items", .nat c.size), Log.succeeded]⟩

/-- A processor over a catalog. -/
def ofCatalog (c : Catalog) (config : Config) (payload : Payload α) (metrics : Metrics := {}) :
    Processor α where
  catalog := c
  config := config
  payload := payload
  metrics := metrics
  events := #[initialEvent c config]

/-- Adds events to the log. -/
def note (p : Processor α) (events : List Log.Event) : Processor α :=
  { p with events := p.events ++ events }

/-! ### Tokens -/

/-- Cancels a token with all its descendants. -/
def cancel (p : Processor α) (t : Token) : Processor α :=
  { p with tokens := p.tokens.cancel t }

/-- Whether the token of a run is cancelled. -/
def isCancelled (p : Processor α) (r : Run α) : Bool := p.tokens.isCancelled r.token

/-! ### Producers -/

/-- What the next call of the payload function makes of an entry. -/
def makeNow (p : Processor α) (e : Entry) : α × Stamp :=
  (p.payload.make p.calls e, p.payload.stamp p.calls)

/-- Carries out what a producer's step does outside of its run. -/
def perform (p : Processor α) : Effect → Processor α
  | .none => p
  | .callPayload =>
    let q := { p with calls := p.calls + 1 }
    if p.payload.cancels p.calls then q.cancel Tokens.root else q
  | .count category => { p with tally := p.tally.increment category }

/-- Lets the producer of a run make a step. -/
def stepRun (p : Processor α) (i : Nat) : Option (Processor α) := do
  let r ← p.runs[i]?
  let move ← r.produce (p.isCancelled r) p.makeNow
  return ({ p with runs := p.runs.set i move.run }.perform move.effect).note
    (move.notes.map Run.Note.event)

/-- Lets the first producer that can make a step make it. -/
def stepAny (p : Processor α) : Option (Processor α) :=
  (List.range p.runs.length).findSome? p.stepRun

/-- A bound on the number of steps that all producers still have to make. -/
def work (p : Processor α) : Nat := sumOf (·.work) p.runs

/-- Lets producers make at most so many steps. -/
def settleWithin : Nat → Processor α → Processor α
  | 0, p => p
  | n + 1, p =>
    match p.stepAny with
    | some q => settleWithin n q
    | none => p

/-- Lets all producers go on until each is held up or has ended. -/
def settle (p : Processor α) : Processor α := settleWithin p.work p

/-! ### Runs -/

/-- Starts a run whose token is below another; the run's number is that of `runs` before.  This is
what happens if the run's channel can be made, as `start?` makes sure of. -/
def startRun (p : Processor α) (parent : Token) : Processor α :=
  let run := Run.ofEntries p.catalog.entries p.tokens.fresh p.config.producerName p.config.capacity
  { p with tokens := p.tokens.child parent, runs := p.runs ++ [run] }

/-- Starts a run, unless its channel cannot be made.  Then the program breaks off, and there is no
processor afterwards. -/
def start? (p : Processor α) (parent : Token) : Option (Processor α) :=
  if p.config.canStream then some (p.startRun parent) else none

/-- Changes one run. -/
def modifyRun (p : Processor α) (i : Nat) (f : Run α → Run α) : Processor α :=
  { p with runs := p.runs.modify i f }

/-- Lets a run's consumer do something, given whether the run's token is cancelled. -/
def withRun {β : Type} (p : Processor α) (i : Nat) (f : Bool → Run α → Option β × Run α) :
    Option β × Processor α :=
  match p.runs[i]? with
  | some r =>
    let (result, r) := f (p.isCancelled r) r
    (result, { p with runs := p.runs.set i r })
  | none => (none, p)

/-- Asks a run for its next record; when there is no answer yet, the producers go on first. -/
def next (p : Processor α) (i : Nat) : Answer α × Processor α :=
  match p.withRun i Run.next with
  | (some answer, p) => (answer, p)
  | (none, p) =>
    let (answer, p) := p.settle.withRun i Run.resume
    (answer.getD none, p)

/-- Goes on with a call for the next record at a pace, which says how many steps the producers make
at most before each phase of the call.  When the pace is used up, they go on as far as they can. -/
def callAt : List Nat → Processor α → Nat → Answer α × List Nat × Processor α
  | [], p, i =>
    let (answer, p) := p.settle.withRun i (Run.consumeWithin Phase.count)
    (answer.getD none, [], p)
  | steps :: pace, p, i =>
    match (settleWithin steps p).withRun i Run.consume with
    | (some answer, p) => (answer, pace, p)
    | (none, p) => callAt pace p i

/-- Asks a run for its next record at a pace.  The result says what is left of the pace; without one
it is that of `next`. -/
def nextAt (pace : List Nat) (p : Processor α) (i : Nat) : Answer α × List Nat × Processor α :=
  match pace with
  | [] =>
    let (answer, p) := p.next i
    (answer, [], p)
  | _ :: _ => callAt pace p i

/-- Asks a run for records until its end, and at most so often. -/
def takeWithin : Nat → Processor α → Nat → List (Except Fault (Record α)) × Processor α
  | 0, p, _ => ([], p)
  | n + 1, p, i =>
    match p.next i with
    | (none, p) => ([], p)
    | (some answer, p) =>
      let (answers, p) := takeWithin n p i
      (answer :: answers, p)

/-- Drops a run's consumer. -/
def dropRun (p : Processor α) (i : Nat) : Processor α := p.modifyRun i Run.drop

/-- Uses up a run: all its answers up to the end. -/
def drain (p : Processor α) (i : Nat) : List (Except Fault (Record α)) × Processor α :=
  let (answers, p) := takeWithin (p.catalog.entries.length + 2) p i
  (answers, p.dropRun i)

/-- All records among some answers, or the first fault. -/
def gather : List (Except Fault (Record α)) → Except Fault (List (Record α))
  | [] => .ok []
  | .error f :: _ => .error f
  | .ok record :: rest => (gather rest).map (record :: ·)

/-- Uses up a run: all its records, or the first fault. -/
def collect (p : Processor α) (i : Nat) : Except Fault (List (Record α)) × Processor α :=
  let (answers, p) := p.drain i
  (gather answers, p)

/-- Starts a run below a token and uses it up.  As with `startRun`, its channel can be made. -/
def streamAll (p : Processor α) (parent : Token) (cancelled : Bool) :
    Except Fault (List (Record α)) × Processor α :=
  let i := p.runs.length
  let token := p.tokens.fresh
  let p := p.startRun parent
  (if cancelled then p.cancel token else p).collect i

/-- Starts a run below a token and uses it up, unless its channel cannot be made. -/
def streamAll? (p : Processor α) (parent : Token) (cancelled : Bool) :
    Option (Except Fault (List (Record α)) × Processor α) :=
  if p.config.canStream then some (p.streamAll parent cancelled) else none

/-! ### Statistics and queries -/

/-- The number of producers that have not ended. -/
def liveProducers (p : Processor α) : Nat := p.runs.countP (!·.isFinished)

/-- A copy of the statistics at a given time, with readings of the process. -/
def stats (p : Processor α) (now : Instant) : Stats × Processor α :=
  let result : Stats :=
    { tally := p.tally
      memory := p.metrics.memory
      liveTasks := match p.metrics.liveTasks with
        | .unknown => none
        | .fixed n => some n
        | .producers => some (p.metrics.otherTasks + p.liveProducers)
      timestamp := now }
  (result, if p.metrics.cancelsRoot then p.cancel Tokens.root else p)

/-- The event before a search. -/
def searchEvent (q : Query) : Log.Event :=
  ⟨.info, "Searching", [("query", .text q.text), ("category", .text (q.category.getD "")),
    ("subcategory", .text (q.subcategory.getD "")), ("limit", .nat q.limit)]⟩

/-- Searches the catalog. -/
def search (p : Processor α) (q : Query) : Except Fault (List Hit) × Processor α :=
  let result := p.catalog.search q
  (result, p.note (searchEvent q :: q.searchEvents result))

/-- Runs a pool of workers, in which first the given workers make one step each. -/
def runPlan (p : Processor α) (plan : Plan) (workerCount queries : Nat) (cancelled : Bool)
    (steps : List Nat := []) : PoolOutcome × Processor α :=
  let pool := Pool.run p.catalog plan workerCount queries cancelled steps
  (pool.outcome, p.note pool.allEvents)

/-- Runs a pool of workers with the default plan. -/
def runQueries (p : Processor α) (workerCount queries : Nat) (cancelled : Bool)
    (steps : List Nat := []) : PoolOutcome × Processor α :=
  p.runPlan (.perWorker p.config.queryLimit) workerCount queries cancelled steps

end Processor

end EmojiCatalog
