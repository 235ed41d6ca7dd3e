/-!
Settings of a catalog processor.

The batch size is the number of records that the channel of a run can hold.  A channel holds at
least one record and at most `maxCapacity`.  A batch size of zero is taken for one, but nothing is
done about one that is too great: where such a channel is to be made, the program breaks off without
a fault.
-/

namespace EmojiCatalog

/-- Settings of a catalog processor, with their defaults. -/
structure Config where
  /-- The label of the data source, logged when a processor is made. -/
  sourceName : String := "builtin"
  /-- How many records a run may hold ready for its consumer. -/
  batchSize : Nat := 100
  /-- The name stamped into every record. -/
  producerName : String := "StreamPipeline"
  /-- The limit of each query that the worker pool issues by default. -/
  queryLimit : Nat := 5
  deriving DecidableEq, Repr, Inhabited

/-- The capacity of a run's channel: the batch size, but never zero. -/
def Config.capacity (c : Config) : Nat := max 1 c.batchSize

/-- The greatest capacity of a channel: three bits of a word are not available for counting. -/
def maxCapacity : Nat := (UInt64.size - 1) / 8

/-- Whether the channel of a run can be made. -/
def Config.canStream (c : Config) : Bool := c.capacity ≤ maxCapacity

theorem Config.capacity_pos (c : Config) : 0 < c.capacity := by
  unfold capacity; omega

end EmojiCatalog
