import EmojiCatalog.Proofs.Catalog.Built
import EmojiCatalog.Proofs.Run.Conservation
/-!
How far a producer runs ahead of its consumer.

The buffer is all that holds a producer back.  A record enters it only when there is room, so at
most `capacity` records are sent and not taken (`AheadWithin`), and an entry is counted just before
its record is sent, so at most one more is counted than sent.  Both bounds hold in every state and
survive every way in which a run can end or lose its consumer, because the counters of records sent
and taken stand still from then on.

What a run has sent is more than its buffer shows, since a dropped receiver forgets what is
buffered.  So the records sent are gathered act by act (`Trace.emissions`), and are those of the
first entries whatever becomes of them.

A producer that comes to rest while its token is not cancelled and its consumer listens is as far
ahead as the buffer lets it be, or has sent everything (`Sound.unfinished_iff`,
`Sound.counted_at_rest`).
-/

namespace EmojiCatalog.Run

variable {α : Type}

/-! ### The records sent -/

namespace Trace

/-- The records that an act puts into the buffer. -/
def emission (make : Entry → α × Stamp) (t : Trace α) : Act → List (Record α)
  | .produce => (t.step make .produce).run.buffer.drop t.run.buffer.length
  | .serve _ | .cancel => []

/-- The records that some acts put into the buffer, in order. -/
def emissions (make : Nat → Entry → α × Stamp) (t : Trace α) : List Act → List (Record α)
  | [] => []
  | a :: acts => t.emission (make t.calls) a ++ (t.step (make t.calls) a).emissions make acts

end Trace

variable {make : Nat → Entry → α × Stamp} {producedBy : String} {entries : List Entry}
variable {t : Trace α}

/-- An act sends the records by which those of the entries sent are more after it. -/
theorem Sound.take_emission (h : Sound make producedBy entries t) (a : Act) :
    (recordsOf make producedBy entries).take (t.step (make t.calls) a).run.emitted
      = (recordsOf make producedBy entries).take t.run.emitted
        ++ t.emission (make t.calls) a := by
  cases a with
  | produce =>
    rw [Trace.emission]
    obtain ⟨m, hm, ht⟩ | ht := Trace.step_produce (make t.calls) t
    · have hsent := (h.step .produce).conserved.sent
      rw [ht] at hsent ⊢
      obtain ⟨he, hb⟩ | ⟨e, x, -, -, hl, he, hb⟩ := hm.buffer_eq
      · show _ = _ ++ m.run.buffer.drop t.run.buffer.length
        rw [hb, List.drop_length, List.append_nil]
        exact congrArg (List.take · _) he
      · -- the consumer listens, so the buffers before and after show all that is not taken
        have hr : m.run.receiver = t.run.receiver := congrArg (·.1) hm.downstream_eq
        have hnd := receiver_ne_dropped hl
        rw [← hsent (hr ▸ hnd), ← h.conserved.sent hnd]
        show t.taken ++ m.run.buffer = _ ++ m.run.buffer.drop t.run.buffer.length
        rw [hb, List.drop_left, List.append_assoc]
    · rw [ht, List.drop_length, List.append_nil]
  | serve q =>
    rw [Trace.step_serve, Trace.served, emitted_serve, Trace.emission, List.append_nil]
  | cancel => exact (List.append_nil _).symm

theorem Sound.take_emissions (h : Sound make producedBy entries t) (acts : List Act) :
    (recordsOf make producedBy entries).take (t.after make acts).run.emitted
      = (recordsOf make producedBy entries).take t.run.emitted ++ t.emissions make acts := by
  induction acts generalizing t with
  | nil => exact (List.append_nil _).symm
  | cons a acts ih =>
    rw [Trace.after_cons, ih (h.step a), h.take_emission a, List.append_assoc]
    rfl

/-! ### The bound -/

/-- No more records are sent and not taken than the buffer holds. -/
def AheadWithin (capacity : Nat) (t : Trace α) : Prop :=
  t.run.capacity = capacity ∧ t.run.emitted ≤ t.run.taken + capacity

theorem AheadWithin.start (c : Catalog) (config : Config) (token : Token) :
    AheadWithin config.capacity (Trace.start (α := α) c config token) :=
  ⟨rfl, Nat.zero_le _⟩

/-- While the buffer is kept it holds what was sent and not taken. -/
theorem Sound.taken_add_buffer (h : Sound make producedBy entries t)
    (hkept : t.run.receiver ≠ .dropped) :
    t.run.taken + t.run.buffer.length = t.run.emitted := by
  have hlen := congrArg List.length (h.conserved.sent hkept)
  rw [List.length_append, List.length_take, length_recordsOf,
    Nat.min_eq_left h.progress.emitted_le, h.conserved.length_taken] at hlen
  exact hlen

theorem AheadWithin.moved {capacity : Nat} {m : Move α} {f : Entry → α × Stamp}
    (h : AheadWithin capacity t) (hs : Sound make producedBy entries t)
    (hm : Moves t.cancelled f t.run m) : AheadWithin capacity (t.moved m) := by
  obtain ⟨hcapacity, hahead⟩ := h
  have ht : m.run.taken = t.run.taken := congrArg (·.2.2.2) hm.downstream_eq
  refine ⟨(congrArg (·.2.2.1) hm.settings_eq).trans hcapacity, ?_⟩
  show m.run.emitted ≤ m.run.taken + capacity
  cases hm with
  | send _ _ hr hb =>
    -- there is room in the buffer, and all that is sent and not taken is there
    have hroom := hs.taken_add_buffer (receiver_ne_dropped hr)
    show t.run.emitted + 1 ≤ t.run.taken + capacity
    omega
  | _ => exact hahead

theorem AheadWithin.step {capacity : Nat} (h : AheadWithin capacity t)
    (hs : Sound make producedBy entries t) (a : Act) :
    AheadWithin capacity (t.step (make t.calls) a) := by
  refine Trace.step_cases h (fun m hm => h.moved hs hm) (fun q _ => ?_) h
  have htaken := (serves_serve t.cancelled t.run q).flow.taken_eq
  refine ⟨(congrArg (·.2.2.1) (settings_serve t.cancelled t.run q)).trans h.1, ?_⟩
  show (t.run.serve t.cancelled q).2.emitted ≤ (t.run.serve t.cancelled q).2.taken + capacity
  rw [emitted_serve, htaken]
  exact Nat.le_trans h.2 (Nat.add_le_add_right (Nat.le_add_right _ _) capacity)

theorem AheadWithin.after {capacity : Nat} (h : AheadWithin capacity t)
    (hs : Sound make producedBy entries t) (acts : List Act) :
    AheadWithin capacity (t.after make acts) := by
  induction acts generalizing t with
  | nil => exact h
  | cons a acts ih => exact ih (h.step hs a) (hs.step a)

/-! ### At rest -/

/-- A producer that ends while its token is not cancelled and its consumer listens has completed. -/
theorem Sound.completed_of_finished (h : Sound make producedBy entries t)
    (hc : t.cancelled = false) (hl : t.run.receiver = .listening)
    (hf : t.run.isFinished = true) : t.run.stage = .finished .completed := by
  have hnil : t.reports = [] := by
    by_contra hne
    rw [h.reported.cancelled hne] at hc
    cases hc
  obtain hs | hs := h.reported.ended_of_eq_nil hf hnil
  · exact hs
  · exact absurd hl (h.reported.gone hs)

/-- The position of a producer that is held up. -/
theorem Sound.of_heldUp {capacity : Nat} (h : Sound make producedBy entries t)
    (hahead : AheadWithin capacity t) (hheld : t.run.IsHeldUp t.cancelled) :
    t.run.emitted = t.run.taken + capacity ∧ t.run.emitted < entries.length ∧
      t.run.counted = t.run.emitted + 1 := by
  obtain ⟨-, hl, hfull, e, x, hs⟩ := hheld
  obtain ⟨hcapacity, hle⟩ := hahead
  have hbuffer := h.taken_add_buffer (receiver_ne_dropped hl)
  have hdrop := h.progress.drop_emitted (by rw [isFinished, hs])
  rw [remaining, hs] at hdrop
  refine ⟨by omega, lt_length_of_drop hdrop, ?_⟩
  rw [h.progress.counted_eq, hs]
  rfl

/-- A producer at rest is still at work exactly as long as nothing has stopped it and more entries
remain than its consumer and the buffer have taken. -/
theorem Sound.unfinished_iff {capacity : Nat} (h : Sound make producedBy entries t)
    (hahead : AheadWithin capacity t)
    (hrest : t.run.isFinished = true ∨ t.run.IsHeldUp t.cancelled) :
    t.run.isFinished = false ↔
      t.cancelled = false ∧ t.run.receiver = .listening ∧
        t.run.taken + capacity < entries.length := by
  constructor
  · intro hf
    obtain hf' | hheld := hrest
    · rw [hf] at hf'
      cases hf'
    · obtain ⟨hemitted, hlt, -⟩ := h.of_heldUp hahead hheld
      exact ⟨hheld.1, hheld.2.1, hemitted ▸ hlt⟩
  · rintro ⟨hc, hl, hlt⟩
    by_contra hf
    have hs := h.completed_of_finished hc hl (eq_true_of_ne_false hf)
    have hall := h.progress.completed hs
    have hle := hahead.2
    omega

theorem Sound.counted_at_rest {capacity : Nat} (h : Sound make producedBy entries t)
    (hahead : AheadWithin capacity t)
    (hrest : t.run.isFinished = true ∨ t.run.IsHeldUp t.cancelled)
    (hc : t.cancelled = false) (hl : t.run.receiver = .listening) :
    t.run.counted = min entries.length (t.run.taken + capacity + 1) := by
  obtain hf | hheld := hrest
  · -- everything is sent, so it was taken or fits into the buffer
    have hs := h.completed_of_finished hc hl hf
    have hall := h.progress.completed hs
    have hcounted := h.progress.counted_eq
    rw [hs] at hcounted
    have hle := hahead.2
    rw [hcounted, hall, Nat.min_eq_left (by omega)]
    rfl
  · obtain ⟨hemitted, hlt, hcounted⟩ := h.of_heldUp hahead hheld
    rw [hcounted, hemitted]
    exact (Nat.min_eq_right (by omega)).symm

/-! ### All states -/

/-- The records sent from the start of a run are those of the entries sent. -/
theorem emissions_start (make : Nat → Entry → α × Stamp) (c : Catalog) (config : Config)
    (token : Token) (acts : List Act) :
    let start := Trace.start (α := α) c config token
    start.emissions make acts
      = (recordsOf make config.producerName c.entries).take (start.after make acts).run.emitted :=
  ((Sound.start make c config token).take_emissions acts).symm

theorem length_emissions_start (make : Nat → Entry → α × Stamp) (c : Catalog) (config : Config)
    (token : Token) (acts : List Act) :
    let start := Trace.start (α := α) c config token
    (start.emissions make acts).length = (start.after make acts).run.emitted := by
  intro start
  have hsound := (Sound.start make c config token).after acts
  rw [emissions_start, List.length_take, length_recordsOf]
  exact Nat.min_eq_left hsound.progress.emitted_le

/-- **The buffer bounds how far a producer runs ahead of its consumer**, in every state of a run.

* An entry is counted before its record is sent, and at most one is counted beyond those sent.
* No more records are sent and not taken than the buffer has room for, which is never nothing.
* Until the receiver is dropped, the buffer holds exactly what was sent and not taken.
* The records sent are those of the first entries.

The counters of the run are the lengths of these lists. -/
theorem producer_is_held_back (c : Catalog) (config : Config) (token : Token)
    (make : Nat → Entry → α × Stamp) (acts : List Act) :
    let start := Trace.start (α := α) c config token
    let t := start.after make acts
    let emitted := start.emissions make acts
    let capacity := max 1 config.batchSize
    (emitted.length ≤ t.counts.length ∧ t.counts.length ≤ emitted.length + 1) ∧
    (emitted.length ≤ t.taken.length + capacity ∧
      t.counts.length ≤ t.taken.length + capacity + 1) ∧
    (t.run.receiver ≠ .dropped → t.taken ++ t.run.buffer = emitted ∧
      t.run.buffer.length = emitted.length - t.taken.length ∧ t.run.buffer.length ≤ capacity) ∧
    (t.taken <+: emitted ∧
      emitted = (recordsOf make config.producerName c.entries).take emitted.length ∧
      emitted.length ≤ c.entries.length ∧
      t.counts = (c.entries.take t.counts.length).map (·.category)) ∧
    t.run.counted = t.counts.length ∧ t.run.emitted = emitted.length ∧
      t.run.taken = t.taken.length := by
  intro start t emitted capacity
  have hsound : Sound make config.producerName c.entries t :=
    (Sound.start make c config token).after acts
  obtain ⟨-, hahead⟩ : AheadWithin capacity t :=
    (AheadWithin.start c config token).after (Sound.start make c config token) acts
  have hcounted : t.counts.length = t.run.counted := hsound.progress.length_counts
  have hemitted : emitted.length = t.run.emitted := length_emissions_start make c config token acts
  have htaken : t.taken.length = t.run.taken := hsound.conserved.length_taken
  have hrecords : emitted = (recordsOf make config.producerName c.entries).take t.run.emitted :=
    emissions_start make c config token acts
  obtain ⟨hlow, hhigh⟩ := hsound.progress.counted_within
  rw [hcounted, hemitted, htaken]
  refine ⟨⟨hlow, hhigh⟩, ⟨hahead, ?_⟩, ?_, ⟨?_, hrecords, ?_, ?_⟩, rfl, rfl, rfl⟩
  · exact Nat.le_trans hhigh (Nat.succ_le_succ hahead)
  · intro hkept
    have hbuffer := hsound.taken_add_buffer hkept
    refine ⟨(hsound.conserved.sent hkept).trans hrecords.symm, ?_, ?_⟩
    · omega
    · omega
  · rw [hrecords]
    exact hsound.conserved.taken_isPrefix
  · exact hsound.progress.emitted_le
  · exact hsound.progress.counts_eq

/-- The steps of a producer that nobody takes records from. -/
def unheard : List Act := List.replicate 9 .produce

/-- With a buffer for one record such a producer has counted two entries and sent one record, so it
is as far ahead as it can be. -/
theorem producer_is_held_back_unheard :
    let start := Trace.start Catalog.twoFaces { batchSize := 0 } Tokens.root
    let t := start.after (fun n e => ((n, e.item), default)) unheard
    t.run.receiver ≠ .dropped ∧ t.run.buffer.length = 1 ∧ t.counts.length = 2 ∧
      t.taken.length = 0 ∧
      t.taken ++ t.run.buffer = start.emissions (fun n e => ((n, e.item), default)) unheard := by
  have h := producer_is_held_back Catalog.twoFaces { batchSize := 0 } Tokens.root
    (fun n e => ((n, e.item), default)) unheard
  exact ⟨by decide, by decide, by decide, by decide, (h.2.2.1 (by decide)).1⟩

end EmojiCatalog.Run
