import EmojiCatalog.Json.Record
import EmojiCatalog.Processor
/-!
The JSON documents of the catalog processor: a codec for every type that is stored or exchanged.

Whole numbers are words of 64 bits throughout.  A decoded value is not checked beyond its shape: a
tally need not add up, and neither need the counts of a worker.
-/

namespace EmojiCatalog

open Json

/-! ### Queries and settings -/

/-- The document of a query. -/
def Query.codec : Codec Query :=
  .record
    (.required "query" .text <| .optional "category" .text <| .optional "subcategory" .text <|
      .required "limit" .word .nil)
    (fun q => (q.text, q.category, q.subcategory, q.limit, ()))
    (fun (text, category, subcategory, limit, _) => ⟨text, category, subcategory, limit⟩)

/-- The document of a hit, whose relevance is written as a real number. -/
def Hit.codec : Codec (Hit Float) :=
  .record
    (.required "item" .text <| .required "category" .text <| .required "subcategory" .text <|
      .required "relevance" .real .nil)
    (fun h => (h.item, h.category, h.subcategory, h.relevance, ()))
    (fun (item, category, subcategory, relevance, _) => ⟨item, category, subcategory, relevance⟩)

/-- The document of settings, in which all members have defaults. -/
def Config.codec : Codec Config :=
  let default : Config := {}
  .record
    (.withDefault "source_name" .text default.sourceName <|
      .withDefault "batch_size" .word default.batchSize <|
      .withDefault "producer_name" .text default.producerName <|
      .withDefault "query_limit" .word default.queryLimit .nil)
    (fun c => (c.sourceName, c.batchSize, c.producerName, c.queryLimit, ()))
    (fun (source, batch, producer, limit, _) => ⟨source, batch, producer, limit⟩)

/-! ### Time -/

/-- The document of a length of time.  Nanoseconds beyond a second are carried, as long as the
seconds stay words. -/
def Duration.codec : Codec Duration :=
  .strictRecord
    (.required "secs" .word <| .required "nanos" (.whole UInt32.size) .nil)
    (fun d => (d.secs, d.subsecNanos, ()))
    (fun (secs, nanos, _) =>
      let d := Duration.ofParts secs nanos
      if d.secs < wordLimit then some d else none)

/-- The document of a point in time. -/
def Instant.codec : Codec Instant := .spelled Instant.text Instant.ofText?

/-! ### Statistics -/

/-- The document of a tally. -/
def Tally.codec : Codec Tally :=
  .record
    (.required "categories" (.map .word) <| .required "total" .word .nil)
    (fun t => (t.counts, t.total, ()))
    (fun (counts, total, _) => ⟨counts, total⟩)

/-- The document of a reading of the memory. -/
def MemoryUsage.codec : Codec MemoryUsage :=
  .record
    (.required "rss_bytes" .word <| .required "virtual_bytes" .word .nil)
    (fun m => (m.rssBytes, m.virtualBytes, ()))
    (fun (rss, virtual, _) => ⟨rss, virtual⟩)

namespace Stats

/-- The members of a tally among those of its statistics. -/
def tallyMembers (t : Tally) : List (String × Value) :=
  [("categories", .object (t.counts.entries.map fun p => (p.1, .whole p.2))),
    ("total", .whole t.total)]

/-- A count under its name. -/
def count? : String × Value → Option (String × Nat)
  | (name, .whole n) => some (name, n)
  | _ => none

/-- The tally among some members, if its members are there once each. -/
def tally? (members : List (String × Value)) : Option Tally :=
  match members.filter (·.1 = "categories"), members.filter (·.1 = "total") with
  | [(_, .object counts)], [(_, .whole total)] =>
    (counts.mapM count?).map fun counts => ⟨.ofList counts, total⟩
  | _, _ => none

/-- The document of statistics, in which the members of the tally stand beside the readings. -/
def codec : Codec Stats :=
  .merged
    (.omissible "memory" MemoryUsage.codec <| .omissible "live_tasks" .word <|
      .required "timestamp" Instant.codec .nil)
    tallyMembers tally?
    (fun s => (s.tally, s.memory, s.liveTasks, s.timestamp, ()))
    (fun tally (memory, liveTasks, timestamp, _) => ⟨tally, memory, liveTasks, timestamp⟩)

end Stats

/-! ### Pools -/

/-- The document of a worker's tally. -/
def WorkerOutcome.codec : Codec WorkerOutcome :=
  .record
    (.required "worker_id" .word <| .required "queries_run" .word <|
      .required "success_count" .word <| .required "error_count" .word <|
      .required "cancelled" .flag .nil)
    (fun o => (o.workerId, o.queriesRun, o.successCount, o.errorCount, o.cancelled, ()))
    (fun (worker, queries, success, errors, cancelled, _) =>
      ⟨worker, queries, success, errors, cancelled⟩)

/-- The document of a pool's report. -/
def PoolReport.codec : Codec PoolReport :=
  .record
    (.required "total_queries" .word <| .required "total_success" .word <|
      .required "total_errors" .word <| .required "workers" (.list WorkerOutcome.codec) <|
      .required "elapsed" Duration.codec <| .required "queries_per_sec" .real <|
      .required "cancelled" .flag <| .required "failed_workers" .word .nil)
    (fun r => (r.outcome.totalQueries, r.outcome.totalSuccess, r.outcome.totalErrors,
      r.outcome.workers, r.elapsed, r.queriesPerSecond, r.outcome.cancelled,
      r.outcome.failedWorkers, ()))
    (fun (queries, success, errors, workers, elapsed, rate, cancelled, failed, _) =>
      ⟨⟨queries, success, errors, workers, cancelled, failed⟩, elapsed, rate⟩)

/-! ### Records -/

/-- The document of what is known about an item. -/
def Metadata.codec : Codec Metadata :=
  .record
    (.required "length" .word <| .required "byte_size" .word <| .required "content_hash" .text <|
      .required "created_at" Instant.codec <| .required "correlation_id" .text <|
      .required "produced_by" .text .nil)
    (fun m => (m.length, m.byteSize, m.contentHash, m.stamp.createdAt, m.stamp.correlationId,
      m.producedBy, ()))
    (fun (length, byteSize, hash, created, correlation, producer, _) =>
      ⟨length, byteSize, hash, ⟨created, correlation⟩, producer⟩)

/-- The document of a record. -/
def Record.codec {α : Type} (payload : Codec α) : Codec (Record α) :=
  .record
    (.required "item" .text <| .required "category" .text <| .required "payload" payload <|
      .required "metadata" Metadata.codec .nil)
    (fun r => (r.item, r.category, r.payload, r.metadata, ()))
    (fun (item, category, payload, metadata, _) => ⟨item, category, payload, metadata⟩)

/-! ### Statuses -/

namespace Status

/-- The status of a name that was read. -/
def named (name : String) : Except Problem Status := orMismatch (ofName? name)

/-- Reads the one member of an object whose key is a status and whose value is `null`. -/
def readKeyed (cs : List Char) : Except Problem (Status × List Char) := do
  let (name, cs) ← readKey cs
  let status ← named name
  let cs := skipBlanks (← readColon cs)
  match cs with
  | 'n' :: rest =>
    let rest ← expectAll ['u', 'l', 'l'] rest
    return (status, ← expect '\x7d' (skipBlanks rest))
  | cs => .error (refuse cs)

/-- The document of a status: its name, also as the only key of an object. -/
def codec : Codec Status where
  write s := .text s.name
  read cs :=
    match skipBlanks cs with
    | [] => .error .early
    | '"' :: rest => do
      let (name, rest) ← readText rest
      return (← named name, rest)
    | '\x7b' :: rest => readKeyed rest
    | _ => .error .malformed

end Status

end EmojiCatalog
