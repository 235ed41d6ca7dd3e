import EmojiCatalog.Search
/-!
Workers of a query pool.

A worker asks a plan for one query after another, searches the catalog for each, and keeps a tally
of its own.  `Worker.step` makes one step: look at the token, ask the plan, search.  A query that
fails is counted and the worker goes on.  A worker that finds the token cancelled before a query
stops early and keeps its tally; one whose plan breaks down is lost with its tally.

The counts of a tally are words of 64 bits in the program and numbers without a bound here; that
they stay below 2^64 is assumed.
-/

namespace EmojiCatalog

/-- Where the queries of a pool come from.  A plan is a function of the worker and of the number of
the query, so that every run asks the same. -/
structure Plan where
  /-- The query to be issued, unless the plan breaks down there. -/
  query : Nat → Nat → Option Query
  /-- Whether asking for the query cancels the token of the pool. -/
  cancels : Nat → Nat → Bool := fun _ _ => false

namespace Plan

/-- The query of the default plan. -/
def defaultQuery (limit worker index : Nat) : Query where
  text := "worker_" ++ toString worker ++ "_query_" ++ toString index
  limit := limit

/-- The plan in which every query names its worker and its number, and has no filters. -/
def perWorker (limit : Nat) : Plan where
  query worker index := some (defaultQuery limit worker index)

end Plan

/-- The tally of a worker. -/
structure WorkerOutcome where
  workerId : Nat
  queriesRun : Nat
  successCount : Nat
  errorCount : Nat
  /-- Whether the worker stopped early because of a cancellation. -/
  cancelled : Bool
  deriving DecidableEq, Repr, Inhabited

namespace WorkerOutcome

/-- The tally of a worker that has not begun. -/
def start (workerId : Nat) : WorkerOutcome := ⟨workerId, 0, 0, 0, false⟩

/-- The tally after a query that was answered. -/
def recordSuccess (o : WorkerOutcome) : WorkerOutcome :=
  { o with queriesRun := o.queriesRun + 1, successCount := o.successCount + 1 }

/-- The tally after a query that failed. -/
def recordError (o : WorkerOutcome) : WorkerOutcome :=
  { o with queriesRun := o.queriesRun + 1, errorCount := o.errorCount + 1 }

/-- The tally of a worker that stops early. -/
def stopped (o : WorkerOutcome) : WorkerOutcome := { o with cancelled := true }

/-- Whether answered and failed queries add up to all queries. -/
def isBalanced (o : WorkerOutcome) : Bool :=
  o.queriesRun == o.successCount + o.errorCount

end WorkerOutcome

/-- Where a worker stands. -/
inductive Worker.Stage where
  /-- About to look at the token, or to end. -/
  | checking
  /-- About to ask the plan. -/
  | asking
  /-- About to search. -/
  | searching (q : Query)
  /-- Ended with a tally. -/
  | finished
  /-- Ended without one. -/
  | lost
  deriving DecidableEq, Repr

/-- A worker of a pool. -/
structure Worker where
  outcome : WorkerOutcome
  /-- The number of the query that comes next. -/
  index : Nat := 0
  stage : Worker.Stage := .checking
  deriving DecidableEq, Repr

namespace Worker

/-- A worker about to begin. -/
def start (workerId : Nat) : Worker where
  outcome := .start workerId

/-- Whether the worker makes no more steps. -/
def isFinished (w : Worker) : Bool :=
  match w.stage with
  | .finished | .lost => true
  | _ => false

/-- A step of a worker: the worker after it, whether it cancels the token, and its events. -/
structure Move where
  worker : Worker
  cancels : Bool := false
  events : List Log.Event := []

/-- The number of queries from one progress event to the next. -/
def sampleInterval : Nat := 10

/-- The event on an answered query, which only some cause. -/
def progressEvents (w : Worker) (results : Nat) : List Log.Event :=
  if w.index % sampleInterval = 0 then
    [⟨.debug, "Query worker progress", [("worker_id", .nat w.outcome.workerId),
      ("query_index", .nat w.index), ("results", .nat results)]⟩]
  else []

/-- The worker after a search, with its events. -/
def record (w : Worker) : Except Fault (List Hit) → Worker × List Log.Event
  | .ok hits =>
    ({ outcome := w.outcome.recordSuccess, index := w.index + 1 },
      w.progressEvents hits.length)
  | .error f =>
    ({ outcome := w.outcome.recordError, index := w.index + 1 },
      [⟨.warn, "Query failed", [("worker_id", .nat w.outcome.workerId),
        ("query_index", .nat w.index), ("error", .text f.message)]⟩])

/-- One step of a worker with so many queries to run, given whether the token is cancelled. -/
def step (c : Catalog) (plan : Plan) (queries : Nat) (cancelled : Bool) (w : Worker) :
    Option Move :=
  match w.stage with
  | .checking =>
    if queries ≤ w.index then some { worker := { w with stage := .finished } }
    else if cancelled then
      some { worker := { w with outcome := w.outcome.stopped, stage := .finished }
             events := [⟨.debug, "Query worker cancelled",
               [("worker_id", .nat w.outcome.workerId), ("completed", .nat w.index)]⟩] }
    else some { worker := { w with stage := .asking } }
  | .asking =>
    let cancels := plan.cancels w.outcome.workerId w.index
    match plan.query w.outcome.workerId w.index with
    | some q => some { worker := { w with stage := .searching q }, cancels := cancels }
    | none => some { worker := { w with stage := .lost }, cancels := cancels }
  | .searching q =>
    let result := c.search q
    let (worker, events) := w.record result
    some { worker := worker, events := q.searchEvents result ++ events }
  | .finished | .lost => none

end Worker

end EmojiCatalog
