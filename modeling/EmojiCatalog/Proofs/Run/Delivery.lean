import EmojiCatalog.Proofs.Run.Conservation
/-!
What a consumer is answered that does nothing but call for the next record.

Such a consumer goes through four states (`Answered`).  It reads while records come; the answers are
then the records taken, and the report slot has not been touched.  It is closing when the records
have run dry: the producer has ended, and only the report decides how the run is over.  Then the run
has failed, because of a cancellation, or it has ended, which it does only if the producer has
completed.  From there on every answer is the end.

What makes this work is that a consumer that reads is still listening.  So a producer that has ended
without a report has completed: of the four endings two leave a report, and the third needs a
consumer that is gone.
-/

namespace EmojiCatalog.Run

variable {α : Type} {t : Trace α}

/-! ### The states of a calling consumer -/

/-- The answers to records. -/
def okAnswers (records : List (Record α)) : List (Answer α) :=
  records.map fun x => some (.ok x)

theorem okAnswers_append (xs ys : List (Record α)) :
    okAnswers (xs ++ ys) = okAnswers xs ++ okAnswers ys :=
  List.map_append

/-- How far a run has come whose consumer only calls for the next record. -/
inductive Answered (t : Trace α) : Prop
  | reading (hd : t.run.isDone = false) (hp : t.run.phase ≠ .awaitingReport)
      (hl : t.run.receiver = .listening) (hr : t.run.report.toList = t.reports)
      (ha : t.answers = okAnswers t.taken)
  | closing (hd : t.run.isDone = true) (hp : t.run.phase = .awaitingReport)
      (hl : t.run.receiver = .listening) (hr : t.run.report.toList = t.reports)
      (ha : t.answers = okAnswers t.taken) (hf : t.run.isFinished = true) (hb : t.run.buffer = [])
  | failed (n : Nat) (hd : t.run.isDone = true) (hp : t.run.phase = .idle)
      (hc : t.cancelled = true)
      (ha : t.answers = okAnswers t.taken ++ some (.error .cancelled) :: List.replicate n none)
  | ended (n : Nat) (hd : t.run.isDone = true) (hp : t.run.phase = .idle)
      (hl : t.run.receiver = .listening) (hs : t.run.stage = .finished .completed)
      (hb : t.run.buffer = []) (ha : t.answers = okAnswers t.taken ++ List.replicate (n + 1) none)

theorem Answered.start (c : Catalog) (config : Config) (token : Token) :
    Answered (Trace.start (α := α) c config token) :=
  .reading rfl nofun rfl rfl rfl

/-! ### What the acts do -/

/-- When the run is over the answer is the end, and nothing changes. -/
theorem Asks.eq_over {cancelled : Bool} {r : Run α} {p : Option (Answer α) × Run α}
    (h : Asks cancelled r p) (hp : r.phase = .idle) (hd : r.isDone = true) :
    p = (some none, r) := by
  cases h with
  | atEnd _ _ => rfl
  | cut hp' _ =>
    rw [hp, hd] at hp'
    obtain ⟨-, hd'⟩ | hp' := hp'
    · cases hd'
    · cases hp'
  | enter _ hd' _ =>
    rw [hd] at hd'
    cases hd'
  | look hp' _ | take hp' _ | wait hp' _ _ | dry hp' _ _ | fail hp' _ | finish hp' _ _
  | await hp' _ _ =>
    rw [hp] at hp'
    cases hp'

theorem Answered.moved {make : Entry → α × Stamp} {m : Move α} (h : Answered t) (hr : Reported t)
    (hm : Moves t.cancelled make t.run m) : Answered (t.moved m) := by
  have hdown := hm.downstream_eq
  have hreceiver : m.run.receiver = t.run.receiver := congrArg (·.1) hdown
  have hphase : m.run.phase = t.run.phase := congrArg (·.2.1) hdown
  have hdone : m.run.isDone = t.run.isDone := congrArg (·.2.2.1) hdown
  cases h with
  | reading hd hp hl _ ha =>
    exact .reading (hdone.trans hd) (fun h => hp (hphase ▸ h)) (hreceiver.trans hl)
      (hr.reports_moved hm).symm ha
  -- a consumer that is closing, or whose run has ended, has no producer at work any more
  | closing _ _ _ _ _ hf _ =>
    rw [hm.not_isFinished] at hf
    cases hf
  | failed n hd hp hc ha => exact .failed n (hdone.trans hd) (hphase.trans hp) hc ha
  | ended n _ _ _ hs _ _ =>
    have hf : t.run.isFinished = true := isFinished_iff.mpr ⟨_, hs⟩
    rw [hm.not_isFinished] at hf
    cases hf

theorem Answered.asked {p : Option (Answer α) × Run α} (h : Answered t) (hr : Reported t)
    (hask : Asks t.cancelled t.run p) : Answered (t.served (.ofAnswer p.1, p.2)) := by
  cases h with
  | reading hd hp hl hslot ha =>
    cases hask with
    | atEnd _ hd' =>
      rw [hd] at hd'
      cases hd'
    | cut _ hc =>
      rw [Reply.ofAnswer, Trace.served_error]
      exact .failed 0 rfl rfl hc (congrArg (· ++ [_]) ha)
    | enter _ _ _ | look _ _ | wait _ _ _ =>
      rw [Reply.ofAnswer, Trace.served_nothing]
      exact .reading hd nofun hl hslot ha
    | take _ hb =>
      rw [Reply.ofAnswer, Trace.served_record]
      refine .reading hd nofun hl hslot ?_
      rw [okAnswers_append, ← ha]
      rfl
    | dry _ hb hdry =>
      -- a listening consumer finds the buffer dry only when the producer has ended
      have hf : t.run.isFinished = true := by
        rw [isDrying, hl, bne_self_eq_false, Bool.or_false] at hdry
        exact hdry
      rw [Reply.ofAnswer, Trace.served_nothing]
      exact .closing rfl rfl hl hslot ha hf hb
    | fail hp' _ | finish hp' _ _ | await hp' _ _ => exact absurd hp' hp
  | closing hd hp hl hslot ha hf hb =>
    cases hask with
    | @fail f _ hreport =>
      have hone : t.reports = [f] := hr.report_eq f hreport
      obtain hnil | ⟨hc, -⟩ := hr.eq_nil_or
      · rw [hnil] at hone
        cases hone
      · rw [hc] at hone
        cases hone
        rw [Reply.ofAnswer, Trace.served_error]
        exact .failed 0 hd rfl (hr.cancelled (by rw [hc]; exact nofun)) (congrArg (· ++ [_]) ha)
    | finish _ hreport _ =>
      -- nothing was reported, and the consumer still listens: the producer has completed
      have hnil : t.reports = [] := by rw [← hslot, hreport]; rfl
      obtain hs | hs := hr.ended_of_eq_nil hf hnil
      · rw [Reply.ofAnswer, Trace.served_end]
        exact .ended 0 hd rfl hl hs hb (congrArg (· ++ [_]) ha)
      · exact absurd hl (hr.gone hs)
    | await _ _ hf' =>
      rw [hf] at hf'
      cases hf'
    | atEnd hp' _ | enter hp' _ _ | look hp' _ | take hp' _ | wait hp' _ _ | dry hp' _ _ =>
      rw [hp] at hp'
      cases hp'
    | cut hp' _ =>
      rw [hp] at hp'
      obtain ⟨hp', -⟩ | hp' := hp' <;> cases hp'
  | failed n hd hp hc ha =>
    rw [hask.eq_over hp hd]
    rw [Reply.ofAnswer, Trace.served_end]
    refine .failed (n + 1) hd hp hc ?_
    show t.answers ++ [none] = _
    rw [ha, List.replicate_succ', List.append_assoc, List.cons_append]
  | ended n hd hp hl hs hb ha =>
    rw [hask.eq_over hp hd]
    rw [Reply.ofAnswer, Trace.served_end]
    refine .ended (n + 1) hd hp hl hs hb ?_
    show t.answers ++ [none] = okAnswers t.taken ++ List.replicate (n + 1 + 1) none
    rw [ha, List.append_assoc, ← List.replicate_succ']

/-- Every act keeps a calling consumer in one of its states. -/
theorem Answered.step (h : Answered t) (hr : Reported t) (make : Entry → α × Stamp) {a : Act}
    (ha : a.IsStreaming) : Answered (t.step make a) := by
  apply Trace.step_cases h
  · exact fun m hm => h.moved hr hm
  · rintro q rfl
    obtain hq | hq | hq := ha <;> cases hq
    exact h.asked hr (asks_consume t.cancelled t.run)
  · cases h with
    | reading hd hp hl hr ha => exact .reading hd hp hl hr ha
    | closing hd hp hl hr ha hf hb => exact .closing hd hp hl hr ha hf hb
    | failed n hd hp _ ha => exact .failed n hd hp rfl ha
    | ended n hd hp hl hs hb ha => exact .ended n hd hp hl hs hb ha

theorem Answered.after {make : Nat → Entry → α × Stamp} {producedBy : String}
    {entries : List Entry} {acts : List Act} (h : Answered t)
    (hs : Sound make producedBy entries t) (hacts : ∀ a ∈ acts, a.IsStreaming) :
    Answered (t.after make acts) := by
  have hboth : Sound make producedBy entries (t.after make acts) ∧
      Answered (t.after make acts) := by
    refine Trace.after_of_step (P := fun u => Sound make producedBy entries u ∧ Answered u) ?_
      ⟨hs, h⟩
    rintro u a ha ⟨hu, hanswered⟩
    exact ⟨hu.step a, hanswered.step hu.reported (make u.calls) (hacts a ha)⟩
  exact hboth.2

/-! ### After the end -/

/-- Only calls for the next record are answered, and only they move a consumer on. -/
theorem Serves.of_ne_ask {cancelled : Bool} {r : Run α} {q : Request} {p : Reply α × Run α}
    (h : Serves cancelled r q p) (hq : q ≠ .ask) :
    p.1.answers = [] ∧ p.2.phase = r.phase ∧ p.2.isDone = r.isDone := by
  cases h with
  | ask _ => exact absurd rfl hq
  | close =>
    rw [close_eq]
    exact ⟨rfl, rfl, rfl⟩
  | _ => exact ⟨rfl, rfl, rfl⟩

theorem consumer_step_of_ne_ask (make : Entry → α × Stamp) (t : Trace α) {a : Act}
    (ha : a ≠ .serve .ask) :
    (t.step make a).answers = t.answers ∧ (t.step make a).run.phase = t.run.phase ∧
      (t.step make a).run.isDone = t.run.isDone := by
  refine Trace.step_cases (P := fun u => u.answers = t.answers ∧ u.run.phase = t.run.phase ∧
    u.run.isDone = t.run.isDone) ⟨rfl, rfl, rfl⟩ ?_ ?_ ⟨rfl, rfl, rfl⟩
  · intro m hm
    have hdown := hm.downstream_eq
    exact ⟨rfl, congrArg (·.2.1) hdown, congrArg (·.2.2.1) hdown⟩
  · rintro q rfl
    have hq : q ≠ .ask := fun h => ha (h ▸ rfl)
    obtain ⟨hanswers, hphase, hdone⟩ := (serves_serve t.cancelled t.run q).of_ne_ask hq
    refine ⟨?_, hphase, hdone⟩
    show t.answers ++ (t.run.serve t.cancelled q).1.answers = t.answers
    rw [hanswers, List.append_nil]

/-- When a run is over for its consumer it stays so, and every call is answered with the end. -/
theorem answers_after_of_over {make : Nat → Entry → α × Stamp} (hp : t.run.phase = .idle)
    (hd : t.run.isDone = true) (acts : List Act) :
    (t.after make acts).answers
      = t.answers ++ List.replicate (acts.count (.serve .ask)) none := by
  induction acts generalizing t with
  | nil => exact (List.append_nil _).symm
  | cons a acts ih =>
    rw [Trace.after_cons]
    by_cases ha : a = .serve .ask
    · -- an ask answers with the end and changes nothing else, so the rest goes on from `t`
      have hover : t.run.consume t.cancelled = (some none, t.run) :=
        (asks_consume t.cancelled t.run).eq_over hp hd
      have hrest := ih (t := { t with answers := t.answers ++ [none] }) hp hd
      rw [ha, Trace.step_serve, serve, hover, Reply.ofAnswer, Trace.served_end]
      refine hrest.trans ?_
      rw [List.count_cons_self, List.append_assoc]
      rfl
    · obtain ⟨hanswers, hphase, hdone⟩ := consumer_step_of_ne_ask (make t.calls) t ha
      rw [ih (hphase.trans hp) (hdone.trans hd), hanswers, List.count_cons_of_ne ha]

/-! ### All answers -/

/-- Answers to some records, then perhaps a cancellation, then so many ends. -/
def answersOf (records : List (Record α)) (failed : Bool) (ends : Nat) : List (Answer α) :=
  okAnswers records
    ++ ((if failed then [some (.error .cancelled)] else []) ++ List.replicate ends none)

/-- The answers to a calling consumer are the first records, then perhaps a cancellation, then
ends. -/
theorem Answered.exists_answersOf {make : Nat → Entry → α × Stamp} {producedBy : String}
    {entries : List Entry} (h : Answered t) (hs : Sound make producedBy entries t) :
    ∃ k failed ends, k ≤ entries.length ∧
      t.answers = answersOf ((recordsOf make producedBy entries).take k) failed ends ∧
      (failed = true → t.cancelled = true) ∧
      (0 < ends → failed = true ∨ k = entries.length) ∧
      (failed = true ∨ 0 < ends → t.run.phase = .idle ∧ t.run.isDone = true) := by
  have hpre : t.taken <+: recordsOf make producedBy entries :=
    hs.conserved.taken_isPrefix.trans (List.take_prefix _ _)
  have htaken := List.prefix_iff_eq_take.mp hpre
  have hle : t.taken.length ≤ entries.length := by
    have hlen := hpre.length_le
    rw [length_recordsOf] at hlen
    exact hlen
  refine ⟨t.taken.length, ?_⟩
  rw [← htaken]
  cases h with
  | reading _ _ _ _ ha | closing _ _ _ _ ha _ _ =>
    refine ⟨false, 0, hle, ?_, nofun, nofun, ?_⟩
    · rw [ha]
      exact (List.append_nil _).symm
    · rintro (h | h) <;> cases h
  | failed n hd hp hc ha =>
    exact ⟨true, n, hle, ha, fun _ => hc, fun _ => .inl rfl, fun _ => ⟨hp, hd⟩⟩
  | ended n hd hp hl hstage hb ha =>
    refine ⟨false, n + 1, hle, ha, nofun, fun _ => .inr ?_, fun _ => ⟨hp, hd⟩⟩
    -- the producer has sent everything and nothing is buffered, so everything was taken
    have hsent := hs.conserved.sent (receiver_ne_dropped hl)
    rw [hb, List.append_nil, hs.progress.completed hstage, take_recordsOf_length] at hsent
    rw [hsent, length_recordsOf]

/-! ### Collecting -/

/-- What a consumer has collected that calls until the end or a fault; nothing if it has not come
there yet. -/
def collected : List (Answer α) → Option (Except Fault (List (Record α)))
  | [] => none
  | none :: _ => some (.ok [])
  | some (.error f) :: _ => some (.error f)
  | some (.ok x) :: answers => (collected answers).map (Except.map (x :: ·))

theorem collected_okAnswers_append (records : List (Record α)) (answers : List (Answer α)) :
    collected (okAnswers records ++ answers)
      = (collected answers).map (Except.map (records ++ ·)) := by
  induction records with
  | nil =>
    rcases h : collected answers with - | (f | v)
    · exact h
    · exact h
    · exact h
  | cons x records ih =>
    show (collected (okAnswers records ++ answers)).map (Except.map (x :: ·)) = _
    rw [ih]
    rcases collected answers with - | (f | v) <;> rfl

theorem collected_answersOf (records : List (Record α)) (failed : Bool) (ends : Nat) :
    collected (answersOf records failed ends)
      = if failed then some (.error .cancelled) else if ends = 0 then none else some (.ok records)
    := by
  rw [answersOf, collected_okAnswers_append]
  cases failed with
  | true => rfl
  | false =>
    cases ends with
    | zero => rfl
    | succ n =>
      show some (Except.ok (records ++ [])) = some (Except.ok records)
      rw [List.append_nil]

section Collecting

variable {make : Nat → Entry → α × Stamp} {producedBy : String} {entries : List Entry}

/-- What is collected are all records; a fault is the cancellation. -/
theorem Answered.of_collected (h : Answered t) (hs : Sound make producedBy entries t) :
    (∀ v, collected t.answers = some (.ok v) → v = recordsOf make producedBy entries) ∧
      ∀ f, collected t.answers = some (.error f) → f = .cancelled ∧ t.cancelled = true := by
  obtain ⟨k, failed, ends, -, ha, hfailed, hends, -⟩ := h.exists_answersOf hs
  rw [ha, collected_answersOf]
  cases failed with
  | true => exact ⟨nofun, fun f hf => ⟨by cases hf; rfl, hfailed rfl⟩⟩
  | false =>
    cases ends with
    | zero => exact ⟨nofun, nofun⟩
    | succ n =>
      refine ⟨?_, nofun⟩
      rintro v hv
      cases hv
      obtain hk | hk := hends (Nat.succ_pos n)
      · cases hk
      · rw [hk, take_recordsOf_length]

/-- No more answers than one for each entry and one fault come before the end. -/
theorem Answered.length_answers_le (h : Answered t) (hs : Sound make producedBy entries t)
    (hnone : none ∉ t.answers) : t.answers.length ≤ entries.length + 1 := by
  obtain ⟨k, failed, ends, hk, ha, -, -, -⟩ := h.exists_answersOf hs
  cases ends with
  | zero =>
    rw [ha, answersOf, List.replicate_zero, List.append_nil, List.length_append, okAnswers,
      List.length_map, List.length_take, length_recordsOf]
    cases failed with
    | true =>
      show min k entries.length + 1 ≤ entries.length + 1
      omega
    | false =>
      show min k entries.length + 0 ≤ entries.length + 1
      omega
  | succ n =>
    refine absurd ?_ hnone
    rw [ha, answersOf]
    exact List.mem_append_right _ (List.mem_append_right _ List.mem_cons_self)

end Collecting

end EmojiCatalog.Run
