import EmojiCatalog.Validation
/-!
What is recorded of the findings.

Each check records a document under a name of its own, and what was not found is not recorded
(`Findings.get?_put_of_ne`).  A member of a document can be looked up by its name
(`Value.member?`); documents are recorded with their members in order, which makes no difference to
this (`Value.member?_sorted`).
-/

namespace EmojiCatalog

open Json

/-! ### Members of documents -/

namespace Json.Value

variable {k name : String} {v : Value} {members : List (String × Value)}

/-- The value of the first member of a name, if the value is an object that has one. -/
def member? (name : String) : Value → Option Value
  | object members => members.lookup name
  | _ => none

/-- Putting a member in its place hides and shows the same as putting it first. -/
theorem lookup_insertMember :
    (insertMember (k, v) members).lookup name = ((k, v) :: members).lookup name := by
  induction members with
  | nil => rfl
  | cons q rest ih =>
    obtain ⟨k', v'⟩ := q
    rw [insertMember]
    split
    next => rfl
    next hle =>
      rw [List.lookup_cons, ih, List.lookup_cons, List.lookup_cons, List.lookup_cons]
      by_cases hk : name = k
      · -- the members that stand before have other names
        have hne : (name == k') = false := by
          rw [beq_eq_false_iff_ne, hk]
          rintro rfl
          exact hle (String.le_refl _)
        rw [hne]
      · rw [beq_eq_false_iff_ne.mpr hk]

theorem lookup_sortedMembers (members : List (String × Value)) (name : String) :
    (sortedMembers members).lookup name = (members.lookup name).map sorted := by
  induction members with
  | nil => rfl
  | cons q rest ih =>
    obtain ⟨k, v⟩ := q
    rw [sortedMembers, lookup_insertMember, List.lookup_cons, List.lookup_cons, ih]
    cases name == k with
    | false => rfl
    | true => rfl

/-- The order of the members makes no difference to what can be looked up. -/
theorem member?_sorted (v : Value) (name : String) :
    v.sorted.member? name = (v.member? name).map sorted := by
  cases v with
  | object members =>
    rw [sorted]
    exact lookup_sortedMembers members name
  | _ => rfl

end Json.Value

/-! ### Findings -/

/-- What some details record under a name, as a member of the document that stands there. -/
def Details.recorded? (d : Details) (name member : String) : Option Value :=
  (d.get? name).bind (·.member? member)

namespace Findings

variable {α : Type} {name : String} {d : Details} {f : Findings}

theorem get?_put_self (document : α → Value) (x : α) :
    (put name document (some x) d).get? name = some (document x).sorted :=
  KeyMap.get?_alter_self _ _ _

theorem get?_put_of_ne {other : String} (document : α → Value) (found : Option α)
    (h : other ≠ name) : (put name document found d).get? other = d.get? other := by
  cases found with
  | none => rfl
  | some x => exact KeyMap.get?_alter_of_ne _ _ h

theorem details_get?_stream {found : Nat × Duration} (h : f.stream = some found) :
    f.details.get? "stream_processing" = some (streamDocument found).sorted := by
  rw [details, get?_put_of_ne _ _ (by decide), get?_put_of_ne _ _ (by decide),
    get?_put_of_ne _ _ (by decide), h, get?_put_self]

theorem details_get?_statistics {stats : Stats} (h : f.statistics = some stats) :
    f.details.get? "statistics" = some (Stats.codec.write stats).sorted := by
  rw [details, get?_put_of_ne _ _ (by decide), get?_put_of_ne _ _ (by decide), h, get?_put_self]

theorem details_get?_pool {report : PoolReport} (h : f.pool = some report) :
    f.details.get? "concurrent_processing" = some (PoolReport.codec.write report).sorted := by
  rw [details, h, get?_put_self]

/-- The number of records that is recorded. -/
theorem recorded?_processed_count {count : Nat} {time : Duration}
    (h : f.stream = some (count, time)) :
    f.details.recorded? "stream_processing" "processed_count" = some (.whole count) := by
  rw [Details.recorded?, details_get?_stream h, Option.bind_some, Value.member?_sorted]
  rfl

/-- The total of the statistics that is recorded. -/
theorem recorded?_total {stats : Stats} (h : f.statistics = some stats) :
    f.details.recorded? "statistics" "total" = some (.whole stats.tally.total) := by
  rw [Details.recorded?, details_get?_statistics h, Option.bind_some, Value.member?_sorted]
  rfl

/-- A member of the document of a pool is recorded in order. -/
theorem recorded?_pool {report : PoolReport} (h : f.pool = some report) (member : String) :
    f.details.recorded? "concurrent_processing" member
      = ((PoolReport.codec.write report).member? member).map Value.sorted := by
  rw [Details.recorded?, details_get?_pool h, Option.bind_some, Value.member?_sorted]

end Findings

end EmojiCatalog
