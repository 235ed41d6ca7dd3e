import EmojiCatalog.Proofs.Run.Reach
/-!
Histories in which the producer comes to rest.

A producer is at rest when it has ended or is held up.  If it always is when a request is served or
the token is cancelled, the replies do not depend on when it made its steps in between.  The reason
is that the steps of a producer alone always lead to the same place, `Trace.settle`, and that a step
of the producer does not change where they lead.  So the replies are those of a history without
steps, in which the producer goes on until it rests before each act (`orderly_eq_alone`).

Here the payload function makes the same of an entry in every call.
-/

namespace EmojiCatalog.Run.Trace

variable {α : Type} {make : Entry → α × Stamp} {t u : Trace α} {acts : List Act}

/-! ### Replies -/

/-- The reply to an act, if it is a request. -/
def reply (t : Trace α) : Act → List (Reply α)
  | .serve q => [(t.run.serve t.cancelled q).1]
  | .produce | .cancel => []

/-- The replies to all requests among some acts. -/
def replies (make : Entry → α × Stamp) (t : Trace α) : List Act → List (Reply α)
  | [] => []
  | a :: acts => t.reply a ++ (t.step make a).replies make acts

theorem taken_step (t : Trace α) (a : Act) :
    (t.step make a).taken = t.taken ++ (t.reply a).flatMap (·.records) := by
  cases a with
  | produce =>
    rw [reply, List.flatMap_nil, List.append_nil, step]
    cases t.run.produce t.cancelled make <;> rfl
  | serve q =>
    rw [reply, List.flatMap_singleton]
    rfl
  | cancel =>
    rw [reply, List.flatMap_nil, List.append_nil]
    rfl

/-- The records taken are those in the replies. -/
theorem taken_after (t : Trace α) (acts : List Act) :
    (t.after (fun _ => make) acts).taken
      = t.taken ++ (t.replies make acts).flatMap (·.records) := by
  induction acts generalizing t with
  | nil => exact (List.append_nil _).symm
  | cons a acts ih =>
    rw [after_cons, ih, taken_step, replies, List.flatMap_append, List.append_assoc]

/-! ### Rest -/

/-- The producer has ended or is held up. -/
def AtRest (t : Trace α) : Prop := t.run.isFinished = true ∨ t.run.IsHeldUp t.cancelled

/-- The producer is at rest at every request and at every cancellation. -/
def Orderly (make : Entry → α × Stamp) (t : Trace α) : List Act → Prop
  | [] => True
  | a :: acts => (a ≠ .produce → t.AtRest) ∧ (t.step make a).Orderly make acts

theorem step_produce_of_atRest (h : t.AtRest) : t.step make .produce = t := by
  rw [step, produce_eq_none_iff.mpr h]

/-- A producer that is not at rest has a step to make, which leaves less work. -/
theorem atRest_or_work_lt (make : Entry → α × Stamp) (t : Trace α) :
    t.AtRest ∨ (t.step make .produce).run.work < t.run.work := by
  cases hm : t.run.produce t.cancelled make with
  | none => exact .inl (produce_eq_none_iff.mp hm)
  | some m =>
    right
    rw [step, hm]
    exact (produce_eq_some_iff.mp hm).work_lt

/-- So many steps of the producer. -/
def settleWithin (make : Entry → α × Stamp) : Nat → Trace α → Trace α
  | 0, t => t
  | n + 1, t => settleWithin make n (t.step make .produce)

/-- The producer goes on until it is at rest. -/
def settle (make : Entry → α × Stamp) (t : Trace α) : Trace α := settleWithin make t.run.work t

theorem settleWithin_of_atRest (h : t.AtRest) (n : Nat) : settleWithin make n t = t := by
  induction n with
  | zero => rfl
  | succ n ih => rw [settleWithin, step_produce_of_atRest h, ih]

/-- A step more than there is work leads nowhere else. -/
theorem settleWithin_succ {n : Nat} (h : t.run.work ≤ n) :
    settleWithin make (n + 1) t = settleWithin make n t := by
  -- a producer at rest stays where it is, any other has one step less to make after the next
  induction n generalizing t with
  | zero =>
    obtain hrest | hlt := atRest_or_work_lt make t
    · rw [settleWithin_of_atRest hrest, settleWithin_of_atRest hrest]
    · omega
  | succ n ih =>
    obtain hrest | hlt := atRest_or_work_lt make t
    · rw [settleWithin_of_atRest hrest, settleWithin_of_atRest hrest]
    · rw [settleWithin, ih (by omega), settleWithin]

theorem settleWithin_of_le {n : Nat} (h : t.run.work ≤ n) :
    settleWithin make n t = t.settle make := by
  induction h with
  | refl => rfl
  | step h ih => rw [settleWithin_succ h, ih]

theorem settle_of_atRest (h : t.AtRest) : t.settle make = t := settleWithin_of_atRest h _

/-- A step of the producer does not change where it comes to rest. -/
theorem settle_step_produce (make : Entry → α × Stamp) (t : Trace α) :
    (t.step make .produce).settle make = t.settle make := by
  obtain hrest | hlt := atRest_or_work_lt make t
  · rw [step_produce_of_atRest hrest]
  · rw [← settleWithin_of_le (Nat.le_succ t.run.work), settleWithin,
      settleWithin_of_le (Nat.le_of_lt hlt)]

/-! ### Requests and cancellations by themselves -/

/-- The replies to requests when the producer goes on until it rests before each act. -/
def alone (make : Entry → α × Stamp) (t : Trace α) : List Act → List (Reply α)
  | [] => []
  | a :: acts => (t.settle make).reply a ++ ((t.settle make).step make a).alone make acts

/-- The trace when the producer goes on until it rests before each act and at the end. -/
def restAfter (make : Entry → α × Stamp) (t : Trace α) : List Act → Trace α
  | [] => t.settle make
  | a :: acts => ((t.settle make).step make a).restAfter make acts

theorem alone_congr (h : t.settle make = u.settle make) (acts : List Act) :
    t.alone make acts = u.alone make acts := by
  cases acts with
  | nil => rfl
  | cons a acts => rw [alone, alone, h]

theorem restAfter_congr (h : t.settle make = u.settle make) (acts : List Act) :
    t.restAfter make acts = u.restAfter make acts := by
  cases acts with
  | nil => exact h
  | cons a acts => rw [restAfter, restAfter, h]

/-- In an orderly history neither the replies nor where the producer comes to rest at the end depend
on its steps. -/
theorem orderly_eq_alone (h : t.Orderly make acts) :
    t.replies make acts = t.alone make (acts.filter (· ≠ .produce)) ∧
      (t.after (fun _ => make) acts).settle make
        = t.restAfter make (acts.filter (· ≠ .produce)) := by
  induction acts generalizing t with
  | nil => exact ⟨rfl, rfl⟩
  | cons a acts ih =>
    obtain ⟨hrest, hlater⟩ := h
    obtain ⟨hreplies, hsettle⟩ := ih hlater
    rw [replies, after_cons, hreplies, hsettle]
    by_cases ha : a = .produce
    · -- a step is not among the acts that are left, and leads to the same place
      subst ha
      have hsame := settle_step_produce make t
      rw [List.filter_cons_of_neg (by simp), reply, List.nil_append]
      exact ⟨alone_congr hsame _, restAfter_congr hsame _⟩
    · rw [List.filter_cons_of_pos (by simpa using ha), alone, restAfter,
        settle_of_atRest (hrest ha)]
      exact ⟨rfl, rfl⟩

end EmojiCatalog.Run.Trace
