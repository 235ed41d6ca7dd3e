import EmojiCatalog.Duration
import EmojiCatalog.Status
/-!
What can go wrong, as causes.

A `Fault` is what an operation of the catalog processor reports.  A `CaseFault` is what a test case
reports: a reason of its own, an exceeded time budget, or a fault of the processor.  Each has one
text and one numeric code; the code alone decides the verdict on a test case.
-/

namespace EmojiCatalog

/-- The two levels of the catalog at which a name can be unknown. -/
inductive NodeKind where
  | category
  | subcategory
  deriving DecidableEq, Repr

/-- The word for a level. -/
def NodeKind.text : NodeKind → String
  | .category => "Category"
  | .subcategory => "Subcategory"

/-- A state that contradicts itself or an order that it does not allow. -/
inductive Inconsistency where
  /-- A category lists two subcategories of one name. -/
  | duplicateSubcategory (category subcategory : String)
  /-- Counts do not add up to their total. -/
  | sumMismatch (sum total : Nat)
  /-- A status cannot follow another. -/
  | illegalTransition (current next : Status)
  /-- Successful and failed queries do not add up to all queries. -/
  | queryMismatch (success errors queries : Nat)
  /-- Any other inconsistency, in the words of whoever found it. -/
  | stated (text : String)
  deriving DecidableEq, Repr

/-- The text of an inconsistency. -/
def Inconsistency.text : Inconsistency → String
  | .duplicateSubcategory category subcategory =>
    "duplicate subcategory '" ++ subcategory ++ "' in category '" ++ category ++ "'"
  | .sumMismatch sum total => "category sum " ++ toString sum ++ " != total " ++ toString total
  | .illegalTransition current next =>
    "illegal status transition " ++ current.label ++ " -> " ++ next.label
  | .queryMismatch success errors queries =>
    "success " ++ toString success ++ " + errors " ++ toString errors
      ++ " != queries " ++ toString queries
  | .stated text => text

/-- What an operation of the processor can report instead of a result. -/
inductive Fault where
  /-- A named category or subcategory does not exist. -/
  | notFound (kind : NodeKind) (name : String)
  /-- A cancellation was observed. -/
  | cancelled
  /-- A consistency check failed. -/
  | invalidState (cause : Inconsistency)
  deriving DecidableEq, Repr

namespace Fault

/-- The text of a fault. -/
def message : Fault → String
  | notFound kind name => kind.text ++ " '" ++ name ++ "' not found"
  | cancelled => "Operation cancelled"
  | invalidState cause => "Invalid state: " ++ cause.text

/-- The code of a fault: cancellations are skips, inconsistencies warnings, unknown names
failures. -/
def code : Fault → Int
  | cancelled => 1001
  | invalidState _ => 2001
  | notFound _ _ => 3001

/-- Whether the fault is an unknown name. -/
def isNotFound : Fault → Bool
  | notFound _ _ => true
  | _ => false

end Fault

/-- What a test case can report instead of succeeding. -/
inductive CaseFault where
  | skipped (reason : String)
  | warning (reason : String)
  | failed (reason : String)
  | timedOut (budget : Duration)
  | processor (fault : Fault)
  deriving DecidableEq, Repr

namespace CaseFault

/-- The text of a case's fault. -/
def message : CaseFault → String
  | skipped reason => "Test was skipped: " ++ reason
  | warning reason => "Test completed with warning: " ++ reason
  | failed reason => "Test failed: " ++ reason
  | timedOut budget => "Test exceeded its time budget of " ++ budget.text
  | processor fault => fault.message

/-- The code of a case's fault. -/
def code : CaseFault → Int
  | skipped _ => 1001
  | warning _ => 2001
  | failed _ => 3000
  | timedOut _ => 3002
  | processor fault => fault.code

end CaseFault

/-- The verdict that a fault of a running case earns it. -/
def CaseFault.status (fault : CaseFault) : Status :=
  Status.classify fault.code

namespace Status

/-- Moves to the next status, if the order of a case's life allows it. -/
def transition (current next : Status) : Except Fault Status :=
  if current.mayBecome next then .ok next
  else .error (.invalidState (.illegalTransition current next))

end Status

end EmojiCatalog
