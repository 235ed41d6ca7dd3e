import EmojiCatalog.Proofs.Catalog.Built
import EmojiCatalog.Proofs.Run.Conservation
/-!
A run whose consumer has taken the two ends apart.

What such a consumer sees at the record end and at the report end agrees with the way in which the
run ended.  The records are a prefix of those of the catalog; a fault is reported exactly if the run
was cut short by a cancellation; and a run that ends short of the catalog without a fault is one
whose consumer had stopped listening before (`parts_agree_with_ending`).

The step behind the last part is that a producer gives up only when it finds its consumer gone
(`exists_before_of_consumerGone`).  After the end nothing is put into the buffer or the slot any
more, so what is buffered can still be taken, with or without a cancellation.
-/

namespace EmojiCatalog.Run

variable {α : Type} {make : Nat → Entry → α × Stamp} {t : Trace α} {acts : List Act}

/-! ### After the end -/

theorem stage_step_of_finished (h : t.run.isFinished = true) (a : Act) :
    (t.step (make t.calls) a).run.stage = t.run.stage := by
  refine Trace.step_cases (P := fun u => u.run.stage = t.run.stage) rfl ?_ ?_ rfl
  · intro m hm
    rw [hm.not_isFinished] at h
    cases h
  · exact fun q _ => stage_serve t.cancelled t.run q

theorem isFinished_congr {r r' : Run α} (h : r.stage = r'.stage) :
    r.isFinished = r'.isFinished := by
  unfold isFinished
  rw [h]

/-- A producer that has ended stays as it is. -/
theorem stage_after_of_finished (h : t.run.isFinished = true) (acts : List Act) :
    (t.after make acts).run.stage = t.run.stage := by
  refine Trace.after_of_step (P := fun s => s.run.stage = t.run.stage) ?_ rfl
  intro s a _ hs
  rw [stage_step_of_finished ((isFinished_congr hs).trans h) a]
  exact hs

/-- A producer that ended because its consumer was gone had a consumer that did not listen, at some
time when it was still at work. -/
theorem exists_before_of_consumerGone (h : t.run.isFinished = false)
    (hs : (t.after make acts).run.stage = .finished .consumerGone) :
    ∃ before, before <+: acts ∧ (t.after make before).run.isFinished = false ∧
      (t.after make before).run.receiver ≠ .listening := by
  induction acts generalizing t with
  | nil =>
    have hf : t.run.isFinished = true := isFinished_iff.mpr ⟨_, hs⟩
    rw [hf] at h
    cases h
  | cons a acts ih =>
    rw [Trace.after_cons] at hs
    cases hf : (t.step (make t.calls) a).run.isFinished with
    | false =>
      obtain ⟨before, hpre, hbefore⟩ := ih hf hs
      exact ⟨a :: before, (List.prefix_cons_inj a).mpr hpre, hbefore⟩
    | true =>
      -- the run ends with this act, so the act is the move that gives up
      rw [stage_after_of_finished hf] at hs
      refine ⟨[], List.nil_prefix, h, ?_⟩
      cases a with
      | produce =>
        obtain ⟨m, hm, ht⟩ | ht := Trace.step_produce (make t.calls) t
        · rw [ht] at hs
          have hl := hm.not_listening hs
          rwa [show m.run.receiver = t.run.receiver from congrArg (·.1) hm.downstream_eq] at hl
        · rw [ht, h] at hf
          cases hf
      | serve q =>
        rw [Trace.step_serve, Trace.served, isFinished_serve, h] at hf
        cases hf
      | cancel =>
        rw [Trace.step_cancel, h] at hf
        cases hf

/-! ### The report end -/

/-- Faults taken from the slot and the fault in it are those that were put there. -/
theorem faults_step (h : Reported t) (hf : t.faults ++ t.run.report.toList = t.reports) {a : Act}
    (hask : a ≠ .serve .ask) (hdrop : a ≠ .serve .drop) :
    (t.step (make t.calls) a).faults ++ (t.step (make t.calls) a).run.report.toList
      = (t.step (make t.calls) a).reports := by
  refine Trace.step_cases (P := fun u => u.faults ++ u.run.report.toList = u.reports) hf ?_ ?_ hf
  · intro m hm
    -- before a move nothing was reported, so nothing can have been taken either
    obtain ⟨hnone, hslot⟩ := h.unfinished hm.not_isFinished
    rw [hnone, hslot] at hf
    have hfaults : t.faults = [] := (List.append_eq_nil_iff.mp hf).1
    show t.faults ++ m.run.report.toList = t.reports ++ newReports t.run m.run
    rw [hfaults, hnone, newReports, hslot]
  · rintro q rfl
    have hserves := serves_serve t.cancelled t.run q
    generalize t.run.serve t.cancelled q = p at hserves ⊢
    show t.faults ++ p.1.faults ++ p.2.report.toList = t.reports
    rw [← hf, List.append_assoc]
    cases hserves with
    | ask => exact absurd rfl hask
    | drop => exact absurd rfl hdrop
    | report hr => rw [hr]; rfl
    | close => rw [close_eq]; rfl
    | _ => rfl

theorem faults_after {producedBy : String} {entries : List Entry}
    (h : Sound make producedBy entries t) (hf : t.faults ++ t.run.report.toList = t.reports)
    (hask : Act.serve .ask ∉ acts) (hdrop : Act.serve .drop ∉ acts) :
    (t.after make acts).faults ++ (t.after make acts).run.report.toList
      = (t.after make acts).reports := by
  have hboth : Sound make producedBy entries (t.after make acts) ∧
      (t.after make acts).faults ++ (t.after make acts).run.report.toList
        = (t.after make acts).reports := by
    refine Trace.after_of_step (P := fun s => Sound make producedBy entries s ∧
      s.faults ++ s.run.report.toList = s.reports) ?_ ⟨h, hf⟩
    rintro s a ha ⟨hs, hfaults⟩
    exact ⟨hs.step a, faults_step hs.reported hfaults (fun heq => hask (heq ▸ ha))
      (fun heq => hdrop (heq ▸ ha))⟩
  exact hboth.2

/-! ### The record end -/

/-- Only dropping drops the buffer. -/
theorem receiver_step_ne_dropped (h : t.run.receiver ≠ .dropped) {a : Act}
    (hreceiver : a ≠ .serve .dropReceiver) (hdrop : a ≠ .serve .drop) :
    (t.step (make t.calls) a).run.receiver ≠ .dropped := by
  refine Trace.step_cases (P := fun u => u.run.receiver ≠ .dropped) h ?_ ?_ h
  · intro m hm
    show m.run.receiver ≠ .dropped
    rwa [show m.run.receiver = t.run.receiver from congrArg (·.1) hm.downstream_eq]
  · rintro q rfl
    have hserves := serves_serve t.cancelled t.run q
    generalize t.run.serve t.cancelled q = p at hserves ⊢
    show p.2.receiver ≠ .dropped
    cases hserves with
    | dropReceiver => exact absurd rfl hreceiver
    | drop => exact absurd rfl hdrop
    | close => exact mt receiver_close_eq_dropped_iff.mp h
    | ask h' =>
      cases h' with
      | cut _ _ => exact mt receiver_close_eq_dropped_iff.mp h
      | _ => exact h
    | _ => exact h

theorem receiver_after_ne_dropped (h : t.run.receiver ≠ .dropped)
    (hreceiver : Act.serve .dropReceiver ∉ acts) (hdrop : Act.serve .drop ∉ acts) :
    (t.after make acts).run.receiver ≠ .dropped := by
  refine Trace.after_of_step (P := fun s => s.run.receiver ≠ .dropped) ?_ h
  intro s a ha hs
  exact receiver_step_ne_dropped hs (fun heq => hreceiver (heq ▸ ha))
    (fun heq => hdrop (heq ▸ ha))

theorem length_buffer_step_of_finished (h : t.run.isFinished = true) (a : Act) :
    (t.step (make t.calls) a).run.buffer.length
      ≤ t.run.buffer.length - if a == .serve .tryReceive then 1 else 0 := by
  cases a with
  | produce =>
    -- a producer that has ended has no step to make
    obtain ⟨m, hm, -⟩ | ht := Trace.step_produce (make t.calls) t
    · rw [hm.not_isFinished] at h
      cases h
    · exact Nat.le_of_eq (congrArg (·.run.buffer.length) ht)
  | serve q =>
    have hserves := serves_serve t.cancelled t.run q
    rw [Trace.step_serve]
    generalize t.run.serve t.cancelled q = p at hserves ⊢
    show p.2.buffer.length ≤ _
    have hflow := hserves.flow
    cases hserves with
    | receive hb => simp [hb]
    | receiveNothing hb => simp [hb]
    | _ => exact hflow.length_buffer_le
  | cancel => exact Nat.le_refl _

/-- After the end the buffer never grows, and shrinks whenever a record is asked for. -/
theorem length_buffer_after_of_finished (h : t.run.isFinished = true) :
    (t.after make acts).run.buffer.length
      ≤ t.run.buffer.length - acts.count (.serve .tryReceive) := by
  induction acts generalizing t with
  | nil => exact Nat.le_refl _
  | cons a acts ih =>
    have hf : (t.step (make t.calls) a).run.isFinished = true :=
      (isFinished_congr (stage_step_of_finished h a)).trans h
    rw [Trace.after_cons, List.count_cons]
    calc ((t.step (make t.calls) a).after make acts).run.buffer.length
      _ ≤ (t.step (make t.calls) a).run.buffer.length - acts.count (.serve .tryReceive) := ih hf
      _ ≤ t.run.buffer.length - (if a == .serve .tryReceive then 1 else 0)
            - acts.count (.serve .tryReceive) :=
        Nat.sub_le_sub_right (length_buffer_step_of_finished h a) _
      _ = t.run.buffer.length - (acts.count (.serve .tryReceive)
            + if a == .serve .tryReceive then 1 else 0) := by omega

/-! ### The two ends -/

section Ends

variable {producedBy : String} {entries : List Entry}

/-- A fault is reported only when a cancellation came before all entries were sent. -/
theorem Sound.of_mem_reports (h : Sound make producedBy entries t) {f : Fault}
    (hf : f ∈ t.reports) :
    f = .cancelled ∧ t.cancelled = true ∧ t.run.emitted < entries.length := by
  obtain hr | ⟨hr, how, hs, hhow⟩ := h.reported.eq_nil_or
  · rw [hr] at hf
    cases hf
  · have hcancelled : t.cancelled = true := h.reported.cancelled (by rw [hr]; exact nofun)
    rw [hr, List.mem_singleton] at hf
    refine ⟨hf, hcancelled, h.progress.not_completed how hs ?_⟩
    intro heq
    rw [heq] at hhow
    cases hhow

/-- Once the producer has completed nothing is reported any more, even if its token is cancelled. -/
theorem Sound.reports_after_of_completed (h : Sound make producedBy entries t)
    (hs : t.run.stage = .finished .completed) (later : List Act) :
    (t.after make later).reports = [] ∧ (t.after make later).run.report = none := by
  have hf : t.run.isFinished = true := isFinished_iff.mpr ⟨_, hs⟩
  have hreported := (h.after later).reported
  have hnil := hreported.ended _ ((stage_after_of_finished hf later).trans hs)
  refine ⟨hnil, ?_⟩
  cases hr : (t.after make later).run.report with
  | none => rfl
  | some f =>
    have hone := hreported.report_eq f hr
    rw [hnil] at hone
    cases hone

/-- Once the producer has completed all records can be taken, as long as the buffer is kept. -/
theorem Sound.taken_after_of_completed (h : Sound make producedBy entries t)
    (hs : t.run.stage = .finished .completed) {later : List Act}
    (hkept : (t.after make later).run.receiver ≠ .dropped) :
    (t.after make later).taken ++ (t.after make later).run.buffer
        = recordsOf make producedBy entries ∧
      (t.run.buffer.length ≤ later.count (.serve .tryReceive) →
        (t.after make later).taken = recordsOf make producedBy entries) := by
  have hf : t.run.isFinished = true := isFinished_iff.mpr ⟨_, hs⟩
  have hsound := h.after later
  have hsent := hsound.conserved.sent hkept
  rw [hsound.progress.completed ((stage_after_of_finished hf later).trans hs),
    take_recordsOf_length] at hsent
  refine ⟨hsent, fun hcount => ?_⟩
  -- enough requests empty the buffer, and then all records were taken
  have hbuffer : (t.after make later).run.buffer.length
      ≤ t.run.buffer.length - later.count (.serve .tryReceive) :=
    length_buffer_after_of_finished hf
  have hempty : (t.after make later).run.buffer = [] :=
    List.eq_nil_of_length_eq_zero (by omega)
  rw [hempty, List.append_nil] at hsent
  exact hsent

end Ends

/-- **The two ends of a run agree with its ending**, for a consumer that keeps the report end.

* The records taken are those of the first entries, and with those still buffered they are the
  records of all entries sent.
* At most one fault is reported; it is a cancellation, and it is reported only when the token was
  cancelled before all entries were sent.  Faults taken and the one in the slot are those reported.
* A producer that ended without a report has sent all entries, or its consumer had stopped listening
  while it was still at work.
* As long as the producer is at work the slot is empty.
* Once the producer has completed, no fault is reported whatever happens, and the buffered records
  can all be taken. -/
theorem parts_agree_with_ending {rows : List Row} {c : Catalog} (hc : Catalog.build rows = .ok c)
    (config : Config) (token : Token) (make : Nat → Entry → α × Stamp) (acts : List Act)
    (hdrop : Act.serve .drop ∉ acts) :
    let start := Trace.start (α := α) c config token
    let t := start.after make acts
    let records := recordsOf make config.producerName c.entries
    (t.taken <+: records ∧
      (t.run.receiver ≠ .dropped → t.taken ++ t.run.buffer = records.take t.run.emitted)) ∧
    (t.reports.length ≤ 1 ∧
      (∀ f ∈ t.reports, f = .cancelled ∧ t.cancelled = true ∧ t.run.emitted < c.size) ∧
      (Act.serve .ask ∉ acts → t.faults ++ t.run.report.toList = t.reports)) ∧
    (t.run.isFinished = true → t.reports = [] → t.run.emitted = c.size ∨
      ∃ before, before <+: acts ∧ (start.after make before).run.isFinished = false ∧
        (start.after make before).run.receiver ≠ .listening) ∧
    (t.run.isFinished = false → t.run.report = none) ∧
    (t.run.stage = .finished .completed → ∀ later, Act.serve .drop ∉ later →
      let t' := t.after make later
      t'.reports = [] ∧ t'.run.report = none ∧
        (t.run.receiver ≠ .dropped → Act.serve .dropReceiver ∉ later →
          t'.taken ++ t'.run.buffer = records ∧
            (t.run.buffer.length ≤ later.count (.serve .tryReceive) → t'.taken = records))) := by
  intro start t records
  have hsound : Sound make config.producerName c.entries t :=
    (Sound.start make c config token).after acts
  have hsize : c.size = c.entries.length := Catalog.size_eq_of_build hc
  refine ⟨⟨?_, hsound.conserved.sent⟩, ⟨?_, ?_, ?_⟩, ?_, ?_, ?_⟩
  · exact hsound.conserved.taken_isPrefix.trans (List.take_prefix _ _)
  · obtain hr | ⟨hr, -⟩ := hsound.reported.eq_nil_or
    · rw [hr]
      exact Nat.zero_le 1
    · rw [hr]
      exact Nat.le_refl 1
  · intro f hf
    rw [hsize]
    exact hsound.of_mem_reports hf
  · exact fun hask => faults_after (Sound.start make c config token) rfl hask hdrop
  · intro hf hnil
    obtain hs | hs := hsound.reported.ended_of_eq_nil hf hnil
    · left
      rw [hsize]
      exact hsound.progress.completed hs
    · right
      exact exists_before_of_consumerGone rfl hs
  · exact fun hf => (hsound.reported.unfinished hf).2
  · intro hs later hlater t'
    obtain ⟨hnil, hslot⟩ := hsound.reports_after_of_completed hs later
    refine ⟨hnil, hslot, fun hd hreceiver => ?_⟩
    exact hsound.taken_after_of_completed hs (receiver_after_ne_dropped hd hreceiver hlater)

/-- The acts of a run that is held up with its second record when the token is cancelled. -/
def heldUpActs : List Act :=
  List.replicate 9 .produce ++ [.cancel, .produce, .serve .tryReceive, .serve .tryReport]

theorem parts_agree_with_ending_twoFaces :
    let t := (Trace.start Catalog.twoFaces { batchSize := 0 } Tokens.root).after
      (fun n e => ((n, e.item), default)) heldUpActs
    t.run.stage = .finished .cancelledWhileSending ∧ t.reports = [.cancelled] ∧
      t.faults = [.cancelled] ∧ t.cancelled = true ∧ t.run.emitted < Catalog.twoFaces.size := by
  intro t
  have h := parts_agree_with_ending Catalog.build_twoFacesRows { batchSize := 0 } Tokens.root
    (fun n e => ((n, e.item), default)) heldUpActs (by decide)
  refine ⟨rfl, by decide, by decide, ?_⟩
  exact (h.2.1.2.1 .cancelled (by decide)).2

end EmojiCatalog.Run
