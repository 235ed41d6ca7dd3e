/-!
The states in a test case's life: pending, then running, then one of four verdicts.

A verdict for a failed case is chosen by the error's code alone.
-/

namespace EmojiCatalog

/-- Where a test case stands. -/
inductive Status where
  | pending
  | running
  | success
  | warning
  | failed
  | skipped
  deriving DecidableEq, Repr, Inhabited

namespace Status

/-- Every status, in order. -/
def all : List Status := [pending, running, success, warning, failed, skipped]

/-- The place of a status in the order of `all`. -/
def rank : Status → Nat
  | pending => 0
  | running => 1
  | success => 2
  | warning => 3
  | failed => 4
  | skipped => 5

instance : Ord Status := ⟨fun a b => compare a.rank b.rank⟩

/-- Whether a case that stands here has finished. -/
def isTerminal : Status → Bool
  | pending | running => false
  | success | warning | failed | skipped => true

/-- The name under which a status is stored. -/
def name : Status → String
  | pending => "pending"
  | running => "running"
  | success => "success"
  | warning => "warning"
  | failed => "failed"
  | skipped => "skipped"

/-- The label under which a status is shown. -/
def label : Status → String
  | pending => "PENDING"
  | running => "RUNNING"
  | success => "SUCCESS"
  | warning => "WARNING"
  | failed => "FAILED"
  | skipped => "SKIPPED"

/-- The status stored under a name. -/
def ofName? (s : String) : Option Status :=
  all.find? (·.name == s)

/-- The verdict on a case that failed with the given code: codes from 1000 are skips, codes from
2000 warnings, and all codes below 1000 or from 3000 failures. -/
def classify (code : Int) : Status :=
  if 1000 ≤ code ∧ code < 2000 then skipped
  else if 2000 ≤ code ∧ code < 3000 then warning
  else failed

/-- Whether a case may move from one status to another: a pending case starts running, and a
running case gets its verdict. -/
def mayBecome : Status → Status → Bool
  | pending, running => true
  | running, next => next.isTerminal
  | _, _ => false

theorem classify_isTerminal (code : Int) : (classify code).isTerminal = true := by
  unfold classify; split
  · rfl
  · split <;> rfl

theorem classify_ne_success (code : Int) : classify code ≠ success := by
  unfold classify; split
  · simp
  · split <;> simp

theorem mem_all (s : Status) : s ∈ all := by cases s <;> decide

end Status

end EmojiCatalog
