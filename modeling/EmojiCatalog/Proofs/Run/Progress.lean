import EmojiCatalog.Proofs.Run.Trace
/-!
How far a producer has come.

`recordsOf` lists the records that a run makes of its entries when nothing keeps it from doing so:
one for every entry, in order, with what the payload function returned in the call for that entry.
`Progress` ties the position of the producer to that list.  The entries not yet sent are the one in
hand and the pending ones; the payload function was called, and an entry counted, once for every
record sent and at most once more; and a producer that has completed has sent everything, while one
that ended otherwise has not.

The invariant speaks about the producer's side only, so requests preserve it because they leave that
side alone.
-/

namespace EmojiCatalog

variable {α : Type}

/-! ### The records of a list of entries -/

/-- The record made of an entry in the payload function's call of the given number. -/
def recordAt (make : Nat → Entry → α × Stamp) (producedBy : String) (n : Nat) (e : Entry) :
    Record α :=
  .ofEntry e (make n e).1 producedBy (make n e).2

/-- The records of some entries, of which the `n`-th is made in the `n`-th call. -/
def recordsOf (make : Nat → Entry → α × Stamp) (producedBy : String) (entries : List Entry) :
    List (Record α) :=
  entries.mapIdx (recordAt make producedBy)

section Lists

variable {make : Nat → Entry → α × Stamp} {producedBy : String} {entries rest : List Entry}
variable {n : Nat} {e : Entry}

@[simp] theorem length_recordsOf : (recordsOf make producedBy entries).length = entries.length :=
  List.length_mapIdx

@[simp] theorem take_recordsOf_length :
    (recordsOf make producedBy entries).take entries.length
      = recordsOf make producedBy entries := by
  rw [List.take_of_length_le]
  exact Nat.le_of_eq length_recordsOf

theorem take_add_one_of_drop (h : entries.drop n = e :: rest) :
    entries.take (n + 1) = entries.take n ++ [e] := by
  rw [List.take_add, h]
  rfl

theorem drop_add_one_of_drop (h : entries.drop n = e :: rest) : entries.drop (n + 1) = rest := by
  rw [← List.drop_drop, h]
  rfl

theorem lt_length_of_drop (h : entries.drop n = e :: rest) : n < entries.length := by
  have hlen := congrArg List.length h
  simp only [List.length_drop, List.length_cons] at hlen
  omega

theorem take_recordsOf_add_one (h : entries.drop n = e :: rest) :
    (recordsOf make producedBy entries).take (n + 1)
      = (recordsOf make producedBy entries).take n ++ [recordAt make producedBy n e] := by
  have hn := lt_length_of_drop h
  have he : entries[n] = e := by
    have := List.drop_eq_getElem_cons hn
    rw [h] at this
    exact (List.cons.inj this).1.symm
  rw [List.take_add_one, List.getElem?_eq_getElem (by simpa using hn)]
  simp [recordsOf, he]

end Lists

/-! ### What a stage has done for its entry -/

namespace Stage

/-- The entry that the producer has begun with and not sent. -/
def inHand : Stage α → List Entry
  | .building e | .counting e _ | .sending e _ => [e]
  | .starting | .checking | .finished _ => []

/-- How often the payload function was called for an entry that was not sent. -/
def called : Stage α → Nat
  | .counting _ _ | .sending _ _ => 1
  | .finished .cancelledWhileSending | .finished .consumerGone => 1
  | .starting | .checking | .building _ => 0
  | .finished .completed | .finished .cancelledBeforeEntry => 0

/-- How often an entry was counted that was not sent. -/
def counted : Stage α → Nat
  | .sending _ _ => 1
  | .finished .cancelledWhileSending | .finished .consumerGone => 1
  | .starting | .checking | .building _ | .counting _ _ => 0
  | .finished .completed | .finished .cancelledBeforeEntry => 0

theorem counted_le_one (s : Stage α) : s.counted ≤ 1 := by
  cases s with
  | sending _ _ => exact Nat.le_refl 1
  | starting | checking | building _ | counting _ _ => exact Nat.zero_le 1
  | finished how =>
    cases how with
    | cancelledWhileSending | consumerGone => exact Nat.le_refl 1
    | completed | cancelledBeforeEntry => exact Nat.zero_le 1

end Stage

namespace Run

/-- The entries that are not sent yet. -/
def remaining (r : Run α) : List Entry := r.stage.inHand ++ r.pending

section Moves

variable {cancelled : Bool} {make : Entry → α × Stamp} {r : Run α} {m : Move α}

theorem Moves.calls_eq (h : Moves cancelled make r m) :
    m.run.emitted + m.run.stage.called = r.emitted + r.stage.called + m.effect.calls := by
  cases h <;> simp_all [finish, leaveReport, push, Stage.called, Effect.calls]

theorem Moves.counted_eq (h : Moves cancelled make r m) :
    m.run.counted = r.counted + m.effect.counts.length := by
  cases h <;> rfl

theorem Moves.emitted_add_counted (h : Moves cancelled make r m) :
    m.run.emitted + m.run.stage.counted = r.emitted + r.stage.counted + m.effect.counts.length := by
  cases h <;> simp_all [finish, leaveReport, push, Stage.counted, Effect.counts]

/-- A move counts nothing, or the entry in hand. -/
theorem Moves.counts_eq (h : Moves cancelled make r m) :
    m.effect.counts = [] ∨
      ∃ e, r.remaining = e :: r.pending ∧ r.stage.counted = 0 ∧
        m.effect.counts = [e.category] := by
  cases h with
  | @count e record hs =>
    exact .inr ⟨e, by rw [remaining, hs]; rfl, by rw [hs]; rfl, rfl⟩
  | _ => exact .inl rfl

/-- A move that does not end the run sends the first entry that remains, or none. -/
theorem Moves.remaining_eq (h : Moves cancelled make r m) (hf : m.run.isFinished = false) :
    m.run.emitted = r.emitted ∧ m.run.remaining = r.remaining ∨
      ∃ e, m.run.emitted = r.emitted + 1 ∧ r.remaining = e :: m.run.remaining := by
  cases h with
  | start hs => exact .inl ⟨rfl, by simp [remaining, hs, Stage.inHand]⟩
  | begin hs hp _ => exact .inl ⟨rfl, by simp [remaining, hs, hp, Stage.inHand]⟩
  | call hs => exact .inl ⟨rfl, by simp [remaining, hs, Stage.inHand]⟩
  | count hs => exact .inl ⟨rfl, by simp [remaining, hs, Stage.inHand]⟩
  | @send e record hs _ _ _ =>
    exact .inr ⟨e, rfl, by simp [remaining, hs, push, Stage.inHand]⟩
  | complete | stopBefore | stopSending | giveUp => cases hf

/-- The producer ends with entries remaining, except when it completes. -/
theorem Moves.ended {how : Ending} (h : Moves cancelled make r m)
    (hf : m.run.stage = .finished how) :
    m.run.emitted = r.emitted ∧ (how = .completed ↔ r.remaining = []) := by
  cases h with
  | complete hs hp =>
    cases hf
    exact ⟨rfl, by simp [remaining, hs, hp, Stage.inHand]⟩
  | stopBefore hs hp _ =>
    cases hf
    exact ⟨rfl, by simp [remaining, hs, hp, Stage.inHand]⟩
  | stopSending hs _ =>
    cases hf
    exact ⟨rfl, by simp [remaining, hs, Stage.inHand]⟩
  | giveUp hs _ _ =>
    cases hf
    exact ⟨rfl, by simp [remaining, hs, Stage.inHand]⟩
  | start | begin | call | count | send => cases hf

/-- The record of the entry in hand is made by the call of the payload function. -/
theorem Moves.record_eq {e : Entry} {x : Record α} (h : Moves cancelled make r m)
    (hs : m.run.stage = .counting e x ∨ m.run.stage = .sending e x) :
    m.run.emitted = r.emitted ∧
      (r.stage = .building e ∧ x = .ofEntry e (make e).1 r.producedBy (make e).2 ∨
        r.stage = .counting e x) := by
  cases h with
  | call hr =>
    obtain hs | hs := hs <;> cases hs
    exact ⟨rfl, .inl ⟨hr, rfl⟩⟩
  | count hr =>
    obtain hs | hs := hs <;> cases hs
    exact ⟨rfl, .inr hr⟩
  | _ => obtain hs | hs := hs <;> cases hs

end Moves

/-! ### The invariant -/

/-- The producer has sent the first `emitted` entries and stands where its stage says. -/
structure Progress (make : Nat → Entry → α × Stamp) (producedBy : String) (entries : List Entry)
    (t : Trace α) : Prop where
  producedBy_eq : t.run.producedBy = producedBy
  emitted_le : t.run.emitted ≤ entries.length
  drop_emitted : t.run.isFinished = false →
    entries.drop t.run.emitted = t.run.remaining
  completed : t.run.stage = .finished .completed → t.run.emitted = entries.length
  not_completed : ∀ how, t.run.stage = .finished how → how ≠ .completed →
    t.run.emitted < entries.length
  calls_eq : t.calls = t.run.emitted + t.run.stage.called
  counted_eq : t.run.counted = t.run.emitted + t.run.stage.counted
  counts_eq : t.counts = (entries.take t.run.counted).map (·.category)
  record_eq : ∀ e x, t.run.stage = .counting e x ∨ t.run.stage = .sending e x →
    x = recordAt make producedBy t.run.emitted e

variable {make : Nat → Entry → α × Stamp} {producedBy : String} {entries : List Entry}
variable {t : Trace α} {m : Move α}

theorem Progress.start (c : Catalog) (config : Config) (token : Token) :
    Progress make config.producerName c.entries (Trace.start (α := α) c config token) where
  producedBy_eq := rfl
  emitted_le := Nat.zero_le _
  drop_emitted _ := rfl
  completed h := nomatch h
  not_completed _ h := nomatch h
  calls_eq := rfl
  counted_eq := rfl
  counts_eq := rfl
  record_eq _ _ h := h.elim (fun h => nomatch h) (fun h => nomatch h)

theorem Progress.moved (h : Progress make producedBy entries t)
    (hm : Moves t.cancelled (make t.calls) t.run m) :
    Progress make producedBy entries (t.moved m) := by
  -- a producer that moves is at work, so the entries after those sent are the ones that remain
  have hdrop := h.drop_emitted hm.not_isFinished
  have hlen := congrArg List.length hdrop
  rw [List.length_drop] at hlen
  have hcalls := h.calls_eq
  have hcounted := h.counted_eq
  have hle := h.emitted_le
  constructor
  case producedBy_eq =>
    rw [← h.producedBy_eq]
    exact congrArg (·.2.1) hm.settings_eq
  case emitted_le =>
    show m.run.emitted ≤ entries.length
    cases hf : m.run.isFinished with
    | true =>
      obtain ⟨how, hs⟩ := isFinished_iff.mp hf
      rw [(hm.ended hs).1]
      exact hle
    | false =>
      obtain ⟨he, -⟩ | ⟨e, he, hr⟩ := hm.remaining_eq hf
      · rw [he]
        exact hle
      · rw [he]
        exact lt_length_of_drop (hdrop.trans hr)
  case drop_emitted =>
    intro hf
    obtain ⟨he, hr⟩ | ⟨e, he, hr⟩ := hm.remaining_eq hf
    · show entries.drop m.run.emitted = m.run.remaining
      rw [he, hr, hdrop]
    · show entries.drop m.run.emitted = m.run.remaining
      rw [he]
      exact drop_add_one_of_drop (hdrop.trans hr)
  case completed =>
    intro hs
    obtain ⟨he, hr⟩ := hm.ended hs
    -- it completes only when none remains
    rw [hr.mp rfl, List.length_nil] at hlen
    show m.run.emitted = entries.length
    omega
  case not_completed =>
    intro how hs hne
    obtain ⟨he, hr⟩ := hm.ended hs
    have hpos := List.length_pos_iff.mpr (mt hr.mpr hne)
    show m.run.emitted < entries.length
    omega
  case calls_eq =>
    have := hm.calls_eq
    show t.calls + m.effect.calls = m.run.emitted + m.run.stage.called
    omega
  case counted_eq =>
    have := hm.counted_eq
    have := hm.emitted_add_counted
    show m.run.counted = m.run.emitted + m.run.stage.counted
    omega
  case counts_eq =>
    show t.counts ++ m.effect.counts = (entries.take m.run.counted).map (·.category)
    rw [hm.counted_eq, h.counts_eq]
    obtain hc | ⟨e, hr, hz, hc⟩ := hm.counts_eq
    · rw [hc, List.append_nil, List.length_nil, Nat.add_zero]
    · -- the entry in hand was not counted before, so it is the next one to count
      have he : t.run.counted = t.run.emitted := by rw [hcounted, hz, Nat.add_zero]
      rw [hc, he, List.length_singleton, take_add_one_of_drop (hdrop.trans hr), List.map_append]
      rfl
  case record_eq =>
    intro e x hs
    obtain ⟨he, ⟨hr, hx⟩ | hr⟩ := hm.record_eq hs
    · -- the call for the entry in hand is the one whose number is the number of records sent
      have hn : t.calls = t.run.emitted := by rw [hcalls, hr]; rfl
      show x = recordAt make producedBy m.run.emitted e
      rw [hx, he, hn, h.producedBy_eq]
      rfl
    · show x = recordAt make producedBy m.run.emitted e
      rw [he]
      exact h.record_eq e x (.inl hr)

theorem Progress.served (h : Progress make producedBy entries t) (q : Request) :
    Progress make producedBy entries (t.served (t.run.serve t.cancelled q)) := by
  have hsettings : (t.run.serve t.cancelled q).2.producedBy = t.run.producedBy :=
    congrArg (·.2.1) (settings_serve t.cancelled t.run q)
  constructor <;>
    simp only [Trace.served, remaining, hsettings, isFinished_serve, stage_serve, pending_serve,
      counted_serve, emitted_serve]
  · exact h.producedBy_eq
  · exact h.emitted_le
  · exact h.drop_emitted
  · exact h.completed
  · exact h.not_completed
  · exact h.calls_eq
  · exact h.counted_eq
  · exact h.counts_eq
  · exact h.record_eq

/-- Every act of every party preserves the position of the producer. -/
theorem Progress.step (h : Progress make producedBy entries t) (a : Act) :
    Progress make producedBy entries (t.step (make t.calls) a) :=
  Trace.step_cases h (fun _ hm => h.moved hm) (fun q _ => h.served q) { h with }

/-- No more entries are counted than there are. -/
theorem Progress.counted_le (h : Progress make producedBy entries t) :
    t.run.counted ≤ entries.length := by
  have hle := h.emitted_le
  rw [h.counted_eq]
  cases hs : t.run.stage with
  | sending e x =>
    -- one more is counted than sent, and it is in hand
    have hf : t.run.isFinished = false := by rw [isFinished, hs]
    have hdrop := h.drop_emitted hf
    rw [remaining, hs] at hdrop
    exact lt_length_of_drop hdrop
  | finished how =>
    cases how with
    | completed | cancelledBeforeEntry => exact hle
    | cancelledWhileSending | consumerGone => exact h.not_completed _ hs (by decide)
  | starting | checking | building _ | counting _ _ => exact hle

/-- The counter of a run is the number of entries counted. -/
theorem Progress.length_counts (h : Progress make producedBy entries t) :
    t.counts.length = t.run.counted := by
  rw [h.counts_eq, List.length_map, List.length_take, Nat.min_eq_left h.counted_le]

/-- An entry is counted before its record is sent, and at most one is counted beyond those sent. -/
theorem Progress.counted_within (h : Progress make producedBy entries t) :
    t.run.emitted ≤ t.run.counted ∧ t.run.counted ≤ t.run.emitted + 1 := by
  rw [h.counted_eq]
  exact ⟨Nat.le_add_right _ _, Nat.add_le_add_left t.run.stage.counted_le_one _⟩

end Run

end EmojiCatalog
