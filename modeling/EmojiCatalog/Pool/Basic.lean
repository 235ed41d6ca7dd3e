import EmojiCatalog.Pool.Worker
import EmojiCatalog.SumOf
/-!
Pools of workers that share one token.

`Pool.stepWorker` lets one worker make one step; any order of such steps is a run of the pool.
`Pool.run` begins with the steps of given workers and goes on with all of them taking turns, one
query a turn; so it can follow any order to its end.  When all have ended, `Pool.outcome` adds up
the tallies of the workers that were not lost, sorted by their numbers.

The totals are sums of the counts of all workers and, like these, are assumed to stay below 2^64.
-/

namespace EmojiCatalog

/-- Workers at work, with the token that they share. -/
structure Pool where
  workers : List Worker
  /-- The number of queries for each worker. -/
  queries : Nat
  cancelled : Bool
  events : Array Log.Event := #[]

/-- What a pool has done. -/
structure PoolOutcome where
  totalQueries : Nat
  totalSuccess : Nat
  totalErrors : Nat
  workers : List WorkerOutcome
  /-- Whether some worker stopped early. -/
  cancelled : Bool
  /-- How many workers were lost. -/
  failedWorkers : Nat
  deriving DecidableEq, Repr

/-- What a pool has done, and how long it took. -/
structure PoolReport where
  outcome : PoolOutcome
  elapsed : Duration
  queriesPerSecond : Float

/-- The report on an outcome after some time. -/
def PoolReport.after (outcome : PoolOutcome) (elapsed : Duration) : PoolReport where
  outcome := outcome
  elapsed := elapsed
  queriesPerSecond :=
    if elapsed.nanos = 0 then 0 else outcome.totalQueries.toFloat / elapsed.seconds

namespace Pool

/-- A pool about to begin. -/
def start (workerCount queries : Nat) (cancelled : Bool) : Pool where
  workers := (List.range workerCount).map Worker.start
  queries := queries
  cancelled := cancelled

/-! ### Steps -/

/-- Lets one worker make a step. -/
def stepWorker (c : Catalog) (plan : Plan) (p : Pool) (i : Nat) : Option Pool := do
  let w ← p.workers[i]?
  let move ← w.step c plan p.queries p.cancelled
  return { p with
    workers := p.workers.set i move.worker
    cancelled := p.cancelled || move.cancels
    events := p.events ++ move.events }

/-- Lets one worker make a step, if it has one to make. -/
def advance (c : Catalog) (plan : Plan) (p : Pool) (i : Nat) : Pool :=
  (p.stepWorker c plan i).getD p

/-- A worker's turn: it looks at the token, asks, and searches. -/
def turn (c : Catalog) (plan : Plan) (p : Pool) (i : Nat) : Pool :=
  [i, i, i].foldl (advance c plan) p

/-- One turn for every worker. -/
def takeTurns (c : Catalog) (plan : Plan) (p : Pool) : Pool :=
  (List.range p.workers.length).foldl (turn c plan) p

/-- Whether all workers have ended. -/
def isFinished (p : Pool) : Bool := p.workers.all (·.isFinished)

/-- Rounds of turns until all workers have ended, and at most so many. -/
def rounds (c : Catalog) (plan : Plan) : Nat → Pool → Pool
  | 0, p => p
  | n + 1, p => if p.isFinished then p else rounds c plan n (takeTurns c plan p)

/-! ### Outcomes -/

/-- The tallies of the workers that were not lost. -/
def tallies (workers : List Worker) : List WorkerOutcome :=
  (workers.filter fun w => w.stage != .lost).map (·.outcome)

/-- Puts a tally before the first one whose worker has no smaller number. -/
def insertTally (tally : WorkerOutcome) : List WorkerOutcome → List WorkerOutcome
  | [] => [tally]
  | next :: rest =>
    if tally.workerId ≤ next.workerId then tally :: next :: rest
    else next :: insertTally tally rest

/-- Tallies sorted by the numbers of their workers; those of equal numbers keep their order. -/
def sortTallies (tallies : List WorkerOutcome) : List WorkerOutcome := tallies.foldr insertTally []

/-- The outcome for some workers that have ended. -/
def outcomeOf (workers : List Worker) : PoolOutcome :=
  let kept := sortTallies (tallies workers)
  { totalQueries := sumOf (·.queriesRun) kept
    totalSuccess := sumOf (·.successCount) kept
    totalErrors := sumOf (·.errorCount) kept
    workers := kept
    cancelled := kept.any (·.cancelled)
    failedWorkers := workers.countP fun w => w.stage == .lost }

/-- The outcome of a pool whose workers have ended. -/
def outcome (p : Pool) : PoolOutcome := outcomeOf p.workers

/-! ### Whole runs -/

/-- The event before the first step. -/
def startEvent (workerCount queries : Nat) : Log.Event :=
  ⟨.info, "Starting concurrent queries",
    [("worker_count", .nat workerCount), ("queries_per_worker", .nat queries)]⟩

/-- The events on the workers that were lost. -/
def lostEvents (workers : List Worker) : List Log.Event :=
  (workers.filter fun w => w.stage == .lost).map fun w =>
    ⟨.error, "Query worker failed to complete", [("worker_id", .nat w.outcome.workerId)]⟩

/-- The event after the last step. -/
def endEvent (o : PoolOutcome) : Log.Event :=
  ⟨.info, "Concurrent queries completed",
    [("total_queries", .nat o.totalQueries), ("total_success", .nat o.totalSuccess),
      ("total_errors", .nat o.totalErrors), ("cancelled", .flag o.cancelled),
      ("failed_workers", .nat o.failedWorkers), Log.succeeded]⟩

/-- A pool after its run, in which first the given workers make one step each, and then all take
turns. -/
def run (c : Catalog) (plan : Plan) (workerCount queries : Nat) (cancelled : Bool)
    (steps : List Nat := []) : Pool :=
  rounds c plan (queries + 1) (steps.foldl (advance c plan) (start workerCount queries cancelled))

/-- All events of a pool that has run. -/
def allEvents (p : Pool) : List Log.Event :=
  startEvent p.workers.length p.queries :: p.events.toList ++ lostEvents p.workers
    ++ [endEvent p.outcome]

end Pool

end EmojiCatalog
