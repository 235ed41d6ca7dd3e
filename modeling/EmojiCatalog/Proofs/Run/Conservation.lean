import EmojiCatalog.Proofs.Run.Progress
/-!
What happens to the records and to the report of a run.

`Conserved`: as long as the buffer is not dropped, the records taken followed by those in the buffer
are the records of the entries sent so far.  So nothing is lost, doubled or moved on the way from
the producer to the consumer; dropping the buffer can only cut the list off at its end.

`Reported`: the producer puts a fault into the report slot exactly when it ends because of a
cancellation, and finds the slot empty when it does.
-/

namespace EmojiCatalog

/-- Whether a run ended because its token was cancelled. -/
def Ending.isCancellation : Ending → Bool
  | .cancelledBeforeEntry | .cancelledWhileSending => true
  | .completed | .consumerGone => false

namespace Run

variable {α : Type}

/-! ### What moves and requests do downstream -/

section Moves

variable {cancelled : Bool} {make : Entry → α × Stamp} {r : Run α} {m : Move α}

/-- A move leaves the buffer as it is, or sends the record in hand. -/
theorem Moves.buffer_eq (h : Moves cancelled make r m) :
    m.run.emitted = r.emitted ∧ m.run.buffer = r.buffer ∨
      ∃ e x, r.stage = .sending e x ∧ cancelled = false ∧ r.receiver = .listening ∧
        m.run.emitted = r.emitted + 1 ∧ m.run.buffer = r.buffer ++ [x] := by
  cases h with
  | @send e x hs hc hr _ => exact .inr ⟨e, x, hs, hc, hr, rfl, rfl⟩
  | _ => exact .inl ⟨rfl, rfl⟩

/-- The consumer's side of a run, apart from the buffer and the report slot. -/
def downstream (r : Run α) : Receiver × Phase × Bool × Nat :=
  (r.receiver, r.phase, r.isDone, r.taken)

theorem Moves.downstream_eq (h : Moves cancelled make r m) :
    m.run.downstream = r.downstream := by
  cases h <;> rfl

/-- A move leaves a report exactly if it ends the run because of a cancellation. -/
theorem Moves.report_eq (h : Moves cancelled make r m) :
    m.run.report = r.report ∧
        (∀ how, m.run.stage = .finished how → how.isCancellation = false) ∨
      cancelled = true ∧ m.run.report = (r.report <|> some .cancelled) ∧
        ∃ how, m.run.stage = .finished how ∧ how.isCancellation = true := by
  cases h with
  | stopBefore _ _ hc | stopSending _ hc => exact .inr ⟨hc, rfl, _, rfl, rfl⟩
  | complete | giveUp => exact .inl ⟨rfl, fun how hs => by cases hs; rfl⟩
  | start | begin | call | count | send => exact .inl ⟨rfl, fun how hs => by cases hs⟩

/-- A step of the producer leaves the consumer and the token alone. -/
theorem Trace.step_produce_frame (make : Entry → α × Stamp) (t : Trace α) :
    (t.step make .produce).run.downstream = t.run.downstream ∧
      (t.step make .produce).answers = t.answers ∧
      (t.step make .produce).cancelled = t.cancelled := by
  obtain ⟨m, hm, ht⟩ | ht := step_produce make t
  · rw [ht]
    exact ⟨hm.downstream_eq, rfl, rfl⟩
  · rw [ht]
    exact ⟨rfl, rfl, rfl⟩

theorem Moves.not_listening (h : Moves cancelled make r m)
    (hs : m.run.stage = .finished .consumerGone) : m.run.receiver ≠ .listening := by
  cases h with
  | giveUp _ _ hr => exact hr
  | _ => cases hs

end Moves

/-! ### Records -/

/-- The records of the entries sent are those taken and those buffered, in this order. -/
structure Conserved (records : List (Record α)) (t : Trace α) : Prop where
  sent : t.run.receiver ≠ .dropped → t.taken ++ t.run.buffer = records.take t.run.emitted
  taken_isPrefix : t.taken <+: records.take t.run.emitted
  buffer_eq_nil : t.run.receiver = .dropped → t.run.buffer = []
  length_taken : t.taken.length = t.run.taken

variable {make : Nat → Entry → α × Stamp} {producedBy : String} {entries : List Entry}
variable {records : List (Record α)} {t : Trace α} {m : Move α}

theorem Conserved.start (c : Catalog) (config : Config) (token : Token) :
    Conserved records (Trace.start (α := α) c config token) where
  sent _ := rfl
  taken_isPrefix := List.nil_prefix
  buffer_eq_nil h := nomatch h
  length_taken := rfl

theorem Conserved.moved (h : Conserved (recordsOf make producedBy entries) t)
    (hp : Progress make producedBy entries t)
    (hm : Moves t.cancelled (make t.calls) t.run m) :
    Conserved (recordsOf make producedBy entries) (t.moved m) := by
  have hdown := hm.downstream_eq
  have hr : m.run.receiver = t.run.receiver := congrArg (·.1) hdown
  have ht : m.run.taken = t.run.taken := congrArg (·.2.2.2) hdown
  obtain ⟨he, hb⟩ | ⟨e, x, hs, -, hl, he, hb⟩ := hm.buffer_eq
  · constructor <;> simp only [Trace.moved, he, hb, hr, ht]
    · exact h.sent
    · exact h.taken_isPrefix
    · exact h.buffer_eq_nil
    · exact h.length_taken
  · have hnd := receiver_ne_dropped hl
    -- the record sent is that of the first entry that remains
    have hx : x = recordAt make producedBy t.run.emitted e := hp.record_eq e x (.inr hs)
    have hdrop : entries.drop t.run.emitted = e :: t.run.pending := by
      rw [hp.drop_emitted hm.not_isFinished, remaining, hs]
      rfl
    have hsent : t.taken ++ m.run.buffer
        = (recordsOf make producedBy entries).take m.run.emitted := by
      rw [hb, he, ← List.append_assoc, h.sent hnd, take_recordsOf_add_one hdrop, hx]
    constructor
    · exact fun _ => hsent
    · exact ⟨_, hsent⟩
    · exact fun hd => absurd (hr ▸ hd) hnd
    · exact h.length_taken.trans ht.symm

theorem Conserved.served (h : Conserved records t) (q : Request) :
    Conserved records (t.served (t.run.serve t.cancelled q)) := by
  have hflow := (serves_serve t.cancelled t.run q).flow
  have he := emitted_serve t.cancelled t.run q
  obtain ⟨hsent, hpre, hnil, hlen⟩ := h
  constructor <;> simp only [Trace.served, he]
  all_goals
    generalize (t.run.serve t.cancelled q).1.records = xs at hflow ⊢
    generalize (t.run.serve t.cancelled q).2 = r at hflow ⊢
  · intro hd
    cases hflow with
    | @take x hb _ hr => rw [List.append_assoc, ← hsent (hr ▸ hd), hb]; rfl
    | keep hb _ hr => rw [List.append_nil, hb]; exact hsent (mt hr.mpr hd)
    | lose _ _ hr => exact absurd hr hd
  · cases hflow with
    | @take x hb _ hr =>
      -- a dropped buffer is empty, so the record comes from one that is not dropped
      have hd : t.run.receiver ≠ .dropped := fun hd => by rw [hnil hd] at hb; cases hb
      refine ⟨r.buffer, ?_⟩
      rw [List.append_assoc, ← hsent hd, hb]
      rfl
    | keep | lose => rw [List.append_nil]; exact hpre
  · intro hd
    cases hflow with
    | @take x hb _ hr => rw [hnil (hr ▸ hd)] at hb; cases hb
    | keep hb _ hr => rw [hb]; exact hnil (hr.mp hd)
    | lose hb _ _ => exact hb
  · cases hflow with
    | take _ ht _ => rw [List.length_append, hlen, ht]; rfl
    | keep _ ht _ | lose _ ht _ => rw [List.append_nil, hlen, ht]

/-- Every act of every party conserves the records. -/
theorem Conserved.step (h : Conserved (recordsOf make producedBy entries) t)
    (hp : Progress make producedBy entries t) (a : Act) :
    Conserved (recordsOf make producedBy entries) (t.step (make t.calls) a) :=
  Trace.step_cases h (fun _ hm => h.moved hp hm) (fun q _ => h.served q) { h with }

/-! ### The report -/

/-- The producer has reported a fault exactly if it has ended because of a cancellation. -/
structure Reported (t : Trace α) : Prop where
  unfinished : t.run.isFinished = false → t.reports = [] ∧ t.run.report = none
  ended : ∀ how, t.run.stage = .finished how →
    t.reports = if how.isCancellation then [.cancelled] else []
  cancelled : t.reports ≠ [] → t.cancelled = true
  report_eq : ∀ f, t.run.report = some f → t.reports = [f]
  gone : t.run.stage = .finished .consumerGone → t.run.receiver ≠ .listening

theorem Reported.start (c : Catalog) (config : Config) (token : Token) :
    Reported (Trace.start (α := α) c config token) where
  unfinished _ := ⟨rfl, rfl⟩
  ended _ h := nomatch h
  cancelled h := absurd rfl h
  report_eq _ h := nomatch h
  gone h := nomatch h

/-- The producer finds the slot empty, so what it leaves there is all that was ever reported. -/
theorem Reported.reports_moved {make : Entry → α × Stamp} (h : Reported t)
    (hm : Moves t.cancelled make t.run m) : (t.moved m).reports = m.run.report.toList := by
  obtain ⟨hnone, hslot⟩ := h.unfinished hm.not_isFinished
  show t.reports ++ newReports t.run m.run = m.run.report.toList
  rw [hnone, newReports, hslot]
  rfl

theorem Reported.moved {make : Entry → α × Stamp} (h : Reported t)
    (hm : Moves t.cancelled make t.run m) : Reported (t.moved m) := by
  obtain ⟨hnone, hslot⟩ := h.unfinished hm.not_isFinished
  have hreports := h.reports_moved hm
  -- the slot was empty, and stays so unless the move ends the run because of a cancellation
  obtain ⟨hr, hhow⟩ | ⟨hc, hr, how, hs, hhow⟩ := hm.report_eq
  · rw [hslot] at hr
    rw [hr] at hreports
    constructor
    · exact fun _ => ⟨hreports, hr⟩
    · intro how hs
      rw [hreports, hhow how hs]
      rfl
    · exact fun hne => absurd hreports hne
    · intro f hf
      rw [show m.run.report = some f from hf] at hr
      cases hr
    · exact hm.not_listening
  · rw [hslot] at hr
    rw [hr] at hreports
    constructor
    · intro hf
      have ht : (t.moved m).run.isFinished = true := isFinished_iff.mpr ⟨how, hs⟩
      rw [ht] at hf
      cases hf
    · intro how' hs'
      cases hs.symm.trans hs'
      rw [hreports, hhow]
      rfl
    · exact fun _ => hc
    · intro f hf
      cases hr.symm.trans hf
      exact hreports
    · exact hm.not_listening

theorem Reported.served (h : Reported t) (q : Request) :
    Reported (t.served (t.run.serve t.cancelled q)) := by
  have hserves := serves_serve t.cancelled t.run q
  constructor <;> simp only [Trace.served, isFinished_serve, stage_serve]
  · intro hf
    obtain ⟨hnone, hslot⟩ := h.unfinished hf
    refine ⟨hnone, ?_⟩
    obtain hr | hr := hserves.report_eq
    · rw [hr, hslot]
    · exact hr
  · exact h.ended
  · exact h.cancelled
  · intro f hf
    obtain hr | hr := hserves.report_eq
    · exact h.report_eq f (hr ▸ hf)
    · rw [hr] at hf
      cases hf
  · exact fun hs hl => h.gone hs (hserves.listening hl)

theorem Reported.step (h : Reported t) (a : Act) : Reported (t.step (make t.calls) a) :=
  Trace.step_cases h (fun _ hm => h.moved hm) (fun q _ => h.served q)
    { h with cancelled := fun _ => rfl }

/-- A producer that has ended without a report has completed, or its consumer was gone. -/
theorem Reported.ended_of_eq_nil (h : Reported t) (hf : t.run.isFinished = true)
    (hnil : t.reports = []) :
    t.run.stage = .finished .completed ∨ t.run.stage = .finished .consumerGone := by
  obtain ⟨how, hs⟩ := isFinished_iff.mp hf
  have hended := h.ended how hs
  rw [hnil] at hended
  cases how with
  | completed => exact .inl hs
  | consumerGone => exact .inr hs
  | cancelledBeforeEntry | cancelledWhileSending => cases hended

/-- A producer that has reported a fault has reported a cancellation, and ended because of it. -/
theorem Reported.eq_nil_or (h : Reported t) :
    t.reports = [] ∨
      t.reports = [.cancelled] ∧
        ∃ how, t.run.stage = .finished how ∧ how.isCancellation = true := by
  cases hf : t.run.isFinished with
  | false => exact .inl (h.unfinished hf).1
  | true =>
    obtain ⟨how, hs⟩ := isFinished_iff.mp hf
    have hended := h.ended how hs
    cases hhow : how.isCancellation with
    | false =>
      rw [hhow] at hended
      exact .inl hended
    | true =>
      rw [hhow] at hended
      exact .inr ⟨hended, how, hs, hhow⟩

/-! ### Histories -/

/-- What holds after every history of a run. -/
structure Sound (make : Nat → Entry → α × Stamp) (producedBy : String) (entries : List Entry)
    (t : Trace α) : Prop where
  progress : Progress make producedBy entries t
  conserved : Conserved (recordsOf make producedBy entries) t
  reported : Reported t

theorem Sound.step (h : Sound make producedBy entries t) (a : Act) :
    Sound make producedBy entries (t.step (make t.calls) a) :=
  ⟨h.progress.step a, h.conserved.step h.progress a, h.reported.step a⟩

theorem Sound.after (h : Sound make producedBy entries t) (acts : List Act) :
    Sound make producedBy entries (t.after make acts) :=
  Trace.after_of_step (fun _ a _ h => h.step a) h

theorem Sound.start (make : Nat → Entry → α × Stamp) (c : Catalog) (config : Config)
    (token : Token) : Sound make config.producerName c.entries (Trace.start c config token) :=
  ⟨.start c config token, .start c config token, .start c config token⟩

end Run

end EmojiCatalog
