import EmojiCatalog.Proofs.Catalog.Built
import EmojiCatalog.Proofs.Run.Delivery
/-!
What a cancellation cuts off.

Once the token of a run is cancelled, its producer begins with no entry and sends no record any
more.  It may still be in the middle of an entry; what is left of that entry is at most one call of
the payload function and one count, and `Stage.callsLeft` and `Stage.countsLeft` say how much.  The
sums of these with what was done already never grow (`CutOff`).

On the other side the next call that begins is answered with the cancellation, whatever is buffered
and wherever the producer stands, and all later calls with the end (`answers_after_of_cancelled`).
The producer may have put a cancellation into the report slot as well, but a consumer looks there
only when it has come to the end without a fault, so it is told once (`FaultsOnce`).
-/

namespace EmojiCatalog

variable {α : Type}

/-! ### The producer -/

/-- How often the payload function is still called for the entry in hand. -/
def Stage.callsLeft : Stage α → Nat
  | .building _ => 1
  | .starting | .checking | .counting _ _ | .sending _ _ | .finished _ => 0

/-- How often the entry in hand is still counted. -/
def Stage.countsLeft : Stage α → Nat
  | .building _ | .counting _ _ => 1
  | .starting | .checking | .sending _ _ | .finished _ => 0

theorem Stage.callsLeft_le (s : Stage α) : s.callsLeft ≤ 1 := by
  cases s with
  | building _ => exact Nat.le_refl 1
  | _ => exact Nat.zero_le 1

theorem Stage.countsLeft_le (s : Stage α) : s.countsLeft ≤ 1 := by
  cases s with
  | building _ | counting _ _ => exact Nat.le_refl 1
  | _ => exact Nat.zero_le 1

namespace Run

variable {make : Nat → Entry → α × Stamp} {t u : Trace α}

/-- From `t` to `u` nothing was done but to finish with the entry in hand, and to take from the
buffer. -/
structure CutOff (t u : Trace α) : Prop where
  cancelled : u.cancelled = true
  emitted_eq : u.run.emitted = t.run.emitted
  buffer_isSuffix : u.run.buffer <:+ t.run.buffer
  calls_le : u.calls + u.run.stage.callsLeft ≤ t.calls + t.run.stage.callsLeft
  counts_le : u.counts.length + u.run.stage.countsLeft ≤ t.counts.length + t.run.stage.countsLeft

theorem CutOff.refl (h : t.cancelled = true) : CutOff t t :=
  ⟨h, rfl, List.suffix_refl _, Nat.le_refl _, Nat.le_refl _⟩

theorem CutOff.trans {v : Trace α} (h : CutOff t u) (h' : CutOff u v) : CutOff t v where
  cancelled := h'.cancelled
  emitted_eq := h'.emitted_eq.trans h.emitted_eq
  buffer_isSuffix := h'.buffer_isSuffix.trans h.buffer_isSuffix
  calls_le := Nat.le_trans h'.calls_le h.calls_le
  counts_le := Nat.le_trans h'.counts_le h.counts_le

theorem CutOff.moved {make : Entry → α × Stamp} {m : Move α} (h : t.cancelled = true)
    (hm : Moves t.cancelled make t.run m) : CutOff t (t.moved m) := by
  have hcut : m.run.emitted = t.run.emitted ∧ m.run.buffer = t.run.buffer ∧
      m.effect.calls + m.run.stage.callsLeft ≤ t.run.stage.callsLeft ∧
      m.effect.counts.length + m.run.stage.countsLeft ≤ t.run.stage.countsLeft := by
    cases hm with
    -- the two moves that need a token which is not cancelled
    | begin _ _ hc | send _ hc _ _ =>
      rw [h] at hc
      cases hc
    | call hs | count hs =>
      rw [hs]
      exact ⟨rfl, rfl, Nat.le_refl _, Nat.le_refl _⟩
    | start | complete | stopBefore | stopSending | giveUp =>
      exact ⟨rfl, rfl, Nat.zero_le _, Nat.zero_le _⟩
  obtain ⟨hemitted, hbuffer, hcalls, hcounts⟩ := hcut
  constructor
  case cancelled => exact h
  case emitted_eq => exact hemitted
  case buffer_isSuffix =>
    show m.run.buffer <:+ t.run.buffer
    exact hbuffer ▸ List.suffix_refl _
  case calls_le =>
    show t.calls + m.effect.calls + m.run.stage.callsLeft ≤ t.calls + t.run.stage.callsLeft
    omega
  case counts_le =>
    show (t.counts ++ m.effect.counts).length + m.run.stage.countsLeft
      ≤ t.counts.length + t.run.stage.countsLeft
    rw [List.length_append]
    omega

theorem Flow.isSuffix {r r' : Run α} {records : List (Record α)} (h : Flow r r' records) :
    r'.buffer <:+ r.buffer := by
  cases h with
  | take hb _ _ =>
    rw [hb]
    exact List.suffix_cons _ _
  | keep hb _ _ => exact hb ▸ List.suffix_refl _
  | lose hb _ _ =>
    rw [hb]
    exact List.nil_suffix

theorem CutOff.served (h : t.cancelled = true) (q : Request) :
    CutOff t (t.served (t.run.serve t.cancelled q)) := by
  have hflow := (serves_serve t.cancelled t.run q).flow
  constructor <;> simp only [Trace.served, stage_serve, emitted_serve]
  · exact h
  · exact hflow.isSuffix
  · exact Nat.le_refl _
  · exact Nat.le_refl _

/-- After a cancellation every act cuts off. -/
theorem CutOff.step (make : Entry → α × Stamp) (h : t.cancelled = true) (a : Act) :
    CutOff t (t.step make a) :=
  Trace.step_cases (.refl h) (fun _ hm => .moved h hm) (fun q _ => .served h q)
    { CutOff.refl h with cancelled := rfl }

theorem CutOff.after (h : t.cancelled = true) (acts : List Act) :
    CutOff t (t.after make acts) := by
  refine Trace.after_of_step (P := fun u => CutOff t u) ?_ (.refl h)
  intro u a _ hu
  exact hu.trans (.step (make u.calls) hu.cancelled a)

/-- A run whose token is cancelled at its start counts, sends and delivers nothing. -/
theorem nothing_of_cancelled (c : Catalog) (config : Config) (token : Token)
    (make : Nat → Entry → α × Stamp) (acts : List Act) :
    let t := (Trace.start c config token).after make (.cancel :: acts)
    t.run.counted = 0 ∧ t.run.emitted = 0 ∧ t.run.taken = 0 ∧ t.taken = [] ∧ t.run.buffer = [] := by
  intro t
  have hcut : CutOff ({ Trace.start c config token with cancelled := true } : Trace α) t :=
    .after rfl acts
  have h : Sound make config.producerName c.entries t := (Sound.start make c config token).after _
  have hemitted : t.run.emitted = 0 := hcut.emitted_eq
  have hcounted : t.run.counted = 0 := by
    have hnone : t.counts.length + t.run.stage.countsLeft ≤ 0 := hcut.counts_le
    rw [h.progress.counts_eq, List.length_map, List.length_take,
      Nat.min_eq_left h.progress.counted_le] at hnone
    omega
  have htaken : t.taken = [] := by
    have hsome := h.conserved.taken_isPrefix
    rw [hemitted, List.take_zero] at hsome
    exact List.prefix_nil.mp hsome
  refine ⟨hcounted, hemitted, ?_, htaken, List.suffix_nil.mp hcut.buffer_isSuffix⟩
  rw [← h.conserved.length_taken, htaken, List.length_nil]

/-! ### The consumer -/

/-- Whether an answer is a fault. -/
def isFault : Answer α → Bool
  | some (.error _) => true
  | some (.ok _) | none => false

/-- No two answers are faults, and none is before the run is over for its consumer. -/
structure FaultsOnce (t : Trace α) : Prop where
  calling : t.run.phase = .polling ∨ t.run.phase = .receiving → t.run.isDone = false
  awaiting : t.run.phase = .awaitingReport → t.run.isDone = true
  none_yet : t.run.isDone = false ∨ t.run.phase = .awaitingReport →
    t.answers.countP isFault = 0
  once : t.answers.countP isFault ≤ 1

theorem FaultsOnce.start (c : Catalog) (config : Config) (token : Token) :
    FaultsOnce (Trace.start (α := α) c config token) where
  calling _ := rfl
  awaiting h := nomatch h
  none_yet _ := rfl
  once := Nat.zero_le 1

/-- What leaves the consumer alone keeps its faults as they are. -/
theorem FaultsOnce.congr (h : FaultsOnce t) (hp : u.run.phase = t.run.phase)
    (hd : u.run.isDone = t.run.isDone) (ha : u.answers = t.answers) : FaultsOnce u := by
  constructor
  · rw [hp, hd]
    exact h.calling
  · rw [hp, hd]
    exact h.awaiting
  · rw [hp, hd, ha]
    exact h.none_yet
  · rw [ha]
    exact h.once

theorem FaultsOnce.asked {p : Option (Answer α) × Run α} (h : FaultsOnce t)
    (hask : Asks t.cancelled t.run p) : FaultsOnce (t.served (.ofAnswer p.1, p.2)) := by
  -- a first fault is told when there was none before, and then the run is over
  have told : ∀ (f : Fault) (r : Run α), t.answers.countP isFault = 0 → r.isDone = true →
      r.phase = .idle → FaultsOnce (t.served (.answer (some (.error f)), r)) := by
    intro f r hnone hd hp
    rw [Trace.served_error]
    refine ⟨?_, fun _ => hd, ?_, ?_⟩
    · rintro (h | h) <;> cases hp.symm.trans h
    · rintro (h | h)
      · cases hd.symm.trans h
      · cases hp.symm.trans h
    · rw [List.countP_append, hnone]
      exact Nat.le_refl 1
  cases hask with
  | atEnd hp hd =>
    rw [Reply.ofAnswer, Trace.served_end]
    refine ⟨h.calling, h.awaiting, ?_, ?_⟩
    · rintro (h' | h')
      · cases hd.symm.trans h'
      · cases hp.symm.trans h'
    · rw [List.countP_append]
      exact h.once
  | cut hp _ =>
    have hd : t.run.isDone = false := by
      obtain ⟨-, hd⟩ | hp := hp
      · exact hd
      · exact h.calling (.inl hp)
    exact told _ _ (h.none_yet (.inl hd)) rfl rfl
  | enter _ hd _ =>
    rw [Reply.ofAnswer, Trace.served_nothing]
    refine ⟨fun _ => hd, ?_, fun _ => h.none_yet (.inl hd), h.once⟩
    intro h'
    cases h'
  | look hp _ =>
    have hd := h.calling (.inl hp)
    rw [Reply.ofAnswer, Trace.served_nothing]
    refine ⟨fun _ => hd, ?_, fun _ => h.none_yet (.inl hd), h.once⟩
    intro h'
    cases h'
  | wait hp _ _ =>
    have hd := h.calling (.inr hp)
    rw [Reply.ofAnswer, Trace.served_nothing]
    refine ⟨fun _ => hd, ?_, fun _ => h.none_yet (.inl hd), h.once⟩
    intro h'
    cases h'
  | @take x _ hp _ =>
    have hd := h.calling (.inr hp)
    rw [Reply.ofAnswer, Trace.served_record]
    have hcount : (t.answers ++ [some (Except.ok x)]).countP isFault
        = t.answers.countP isFault := by
      rw [List.countP_append]
      rfl
    refine ⟨fun _ => hd, ?_, fun _ => ?_, ?_⟩
    · intro h'
      cases h'
    · rw [hcount]
      exact h.none_yet (.inl hd)
    · rw [hcount]
      exact h.once
  | dry hp _ _ =>
    have hd := h.calling (.inr hp)
    rw [Reply.ofAnswer, Trace.served_nothing]
    refine ⟨?_, fun _ => rfl, fun _ => h.none_yet (.inl hd), h.once⟩
    rintro (h' | h') <;> cases h'
  | fail hp _ => exact told _ _ (h.none_yet (.inr hp)) (h.awaiting hp) rfl
  | finish hp _ _ =>
    have hd := h.awaiting hp
    rw [Reply.ofAnswer, Trace.served_end]
    refine ⟨?_, fun _ => hd, ?_, ?_⟩
    · rintro (h' | h') <;> cases h'
    · rintro (h' | h')
      · cases hd.symm.trans h'
      · cases h'
    · rw [List.countP_append]
      exact h.once
  | await _ _ _ =>
    rw [Reply.ofAnswer, Trace.served_nothing]
    exact h.congr rfl rfl rfl

theorem FaultsOnce.step (h : FaultsOnce t) (make : Entry → α × Stamp) (a : Act) :
    FaultsOnce (t.step make a) := by
  by_cases ha : a = .serve .ask
  · rw [ha]
    exact h.asked (asks_consume t.cancelled t.run)
  · obtain ⟨hanswers, hphase, hdone⟩ := consumer_step_of_ne_ask make t ha
    exact h.congr hphase hdone hanswers

theorem FaultsOnce.after (h : FaultsOnce t) (acts : List Act) : FaultsOnce (t.after make acts) :=
  Trace.after_of_step (fun u a _ hu => hu.step (make u.calls) a) h

/-- A call that begins after the cancellation is answered with it at once. -/
theorem consume_of_cancelled {r : Run α} (hp : r.phase = .idle) (hd : r.isDone = false) :
    r.consume true = (some (some (.error .cancelled)), r.stop) := by
  simp only [consume, hp, begin, hd, Bool.false_eq_true, if_false, if_true]

/-- After a cancellation the calls that begin are answered with it once, and then with the end. -/
theorem answers_after_of_cancelled (hc : t.cancelled = true) (hp : t.run.phase = .idle)
    (hd : t.run.isDone = false) (acts : List Act) :
    (t.after make acts).answers
      = t.answers ++ (some (.error .cancelled)
          :: List.replicate (acts.count (.serve .ask)) none).take (acts.count (.serve .ask)) := by
  induction acts generalizing t with
  | nil => exact (List.append_nil _).symm
  | cons a acts ih =>
    rw [Trace.after_cons]
    by_cases ha : a = .serve .ask
    · -- the first call after the cancellation: the run is over after it
      have hcut : t.run.consume t.cancelled = (some (some (.error .cancelled)), t.run.stop) := by
        rw [hc]
        exact consume_of_cancelled hp hd
      rw [ha, Trace.step_serve, serve, hcut, Reply.ofAnswer, Trace.served_error,
        answers_after_of_over rfl rfl, List.count_cons_self, List.take_succ_cons,
        List.take_replicate, Nat.min_eq_left (Nat.le_succ _), List.append_assoc]
      rfl
    · have hcut := CutOff.step (make t.calls) hc a
      obtain ⟨hanswers, hphase, hdone⟩ := consumer_step_of_ne_ask (make t.calls) t ha
      rw [ih hcut.cancelled (hphase.trans hp) (hdone.trans hd), hanswers, List.count_cons_of_ne ha]

/-- **A cancellation cuts a run off**, wherever it stands.

* The next call that begins is answered with the cancellation, and every later one with the end;
  and no two answers to a consumer are faults.
* No record is sent any more: the buffer only gets shorter.
* The payload function is called, and an entry is counted, at most once more. -/
theorem cancellation_cuts_off (c : Catalog) (config : Config) (token : Token)
    (make : Nat → Entry → α × Stamp) (acts : List Act) :
    let t := (Trace.start c config token).after make acts
    t.cancelled = true →
      (t.run.phase = .idle → t.run.isDone = false →
        t.run.next t.cancelled = (some (some (.error .cancelled)), t.run.stop) ∧
        ∀ later, (t.after make later).answers
          = t.answers ++ (some (.error .cancelled)
              :: List.replicate (later.count (.serve .ask)) none).take
                (later.count (.serve .ask))) ∧
      ∀ later,
        let t' := t.after make later
        t'.answers.countP isFault ≤ 1 ∧
        t'.run.emitted = t.run.emitted ∧ t'.run.buffer <:+ t.run.buffer ∧
        t'.counts.length ≤ t.counts.length + 1 ∧ t'.calls ≤ t.calls + 1 := by
  intro t hc
  constructor
  · intro hp hd
    refine ⟨?_, answers_after_of_cancelled hc hp hd⟩
    rw [hc]
    simp only [next, begin, hd, Bool.false_eq_true, if_false, if_true]
  · intro later t'
    have hcut : CutOff t t' := .after hc later
    have hfaults : FaultsOnce t' := ((FaultsOnce.start c config token).after acts).after later
    have hcalls := hcut.calls_le
    have hcounts := hcut.counts_le
    -- what was left to do for the entry in hand bounds all that was done after
    have := t.run.stage.callsLeft_le
    have := t.run.stage.countsLeft_le
    exact ⟨hfaults.once, hcut.emitted_eq, hcut.buffer_isSuffix, by omega, by omega⟩

/-- A payload function that tells its calls apart. -/
def numbered (n : Nat) (e : Entry) : (Nat × String) × Stamp := ((n, e.item), default)

/-- The acts of a run that has a record buffered, and the next one held up, when its token is
cancelled. -/
def cancelHeldUp : List Act := List.replicate 9 .produce ++ [.cancel]

/-- Such a run of two records. -/
def heldUpRun : Trace (Nat × String) :=
  (Trace.start Catalog.twoFaces { batchSize := 0 } Tokens.root).after numbered cancelHeldUp

theorem cancellation_cuts_off_heldUpRun :
    heldUpRun.cancelled = true ∧ heldUpRun.run.phase = .idle ∧ heldUpRun.run.isDone = false ∧
      heldUpRun.run.buffer.length = 1 ∧
      heldUpRun.run.next heldUpRun.cancelled
        = (some (some (.error .cancelled)), heldUpRun.run.stop) ∧
      ∀ later, (heldUpRun.after numbered later).run.emitted = 1 := by
  have hc : heldUpRun.cancelled = true := by rfl
  have hp : heldUpRun.run.phase = .idle := by rfl
  have hd : heldUpRun.run.isDone = false := by rfl
  have hb : heldUpRun.run.buffer.length = 1 := by rfl
  have hemitted : heldUpRun.run.emitted = 1 := by rfl
  obtain ⟨hconsumer, hproducer⟩ :=
    cancellation_cuts_off Catalog.twoFaces { batchSize := 0 } Tokens.root numbered cancelHeldUp hc
  refine ⟨hc, hp, hd, hb, (hconsumer hp hd).1, ?_⟩
  intro later
  exact (hproducer later).2.1.trans hemitted

end Run

end EmojiCatalog
