import EmojiCatalog.Proofs.Catalog.Built
import EmojiCatalog.Proofs.Processor.Calls
import EmojiCatalog.Proofs.Tally
/-!
A run that has a processor to itself.

When a run is the only one of its processor, the calls of the payload function are its own, and so
are the counts in the statistics.  `Solo base token p t` says that the history `t` of the run has
led the processor from `base` to `p`, and that nothing else has happened to it.  A consumer that has
come to the end of such a run without a fault knows that the statistics have counted every entry of
the catalog (`Answered.last`, `Solo.tally_of_completed`).

If moreover the payload function cancels nothing and the token was not cancelled at the start,
nothing is left to chance: at every pace of the producer, the answer to each call is known from the
number of those before (`Reads.nextAt`, `Reads.nextAt_of_end`).
-/

namespace EmojiCatalog

open Run (Trace Act Moves Answered Sound AsksTo okAnswers asks)

variable {α : Type}

/-! ### The last answer -/

namespace Run

variable {make : Nat → Entry → α × Stamp} {producedBy : String} {entries : List Entry}
  {t : Trace α} {records : List (Record α)} {a : Answer α}

theorem none_notMem_okAnswers (records : List (Record α)) : none ∉ okAnswers records := by
  intro h
  obtain ⟨x, -, hx⟩ := List.mem_map.mp h
  cases hx

theorem error_notMem_okAnswers (records : List (Record α)) (f : Fault) :
    some (.error f) ∉ okAnswers records := by
  intro h
  obtain ⟨x, -, hx⟩ := List.mem_map.mp h
  cases hx

theorem okAnswers_injective {xs ys : List (Record α)} (h : okAnswers xs = okAnswers ys) :
    xs = ys := by
  refine List.map_injective_iff.mpr ?_ h
  intro x y hxy
  cases hxy
  rfl

/-- The answer after some records is the next record, or a fault after a cancellation, or the end
after all records. -/
theorem Answered.last (h : Answered t) (hs : Sound make producedBy entries t)
    (ha : t.answers = okAnswers records ++ [a]) :
    (∃ x, a = some (.ok x) ∧ t.taken = records ++ [x]) ∨
      a = some (.error .cancelled) ∧ t.cancelled = true ∨
      a = none ∧ records = recordsOf make producedBy entries ∧
        t.run.stage = .finished .completed := by
  cases h with
  | reading _ _ _ _ htaken | closing _ _ _ _ htaken _ _ =>
    left
    rw [htaken] at ha
    obtain hnil | ⟨xs, x, hx⟩ := t.taken.eq_nil_or_concat'
    · rw [hnil] at ha
      exact absurd ha (List.append_ne_nil_of_right_ne_nil _ (List.cons_ne_nil _ _)).symm
    · rw [hx, okAnswers_append] at ha
      obtain ⟨hinit, hlast⟩ := List.append_inj' ha rfl
      refine ⟨x, (List.cons.inj hlast).1.symm, ?_⟩
      rw [hx, okAnswers_injective hinit]
  | failed n _ _ hc htaken =>
    right; left
    rw [htaken] at ha
    cases n with
    | zero =>
      obtain ⟨-, hlast⟩ := List.append_inj' ha rfl
      exact ⟨(List.cons.inj hlast).1.symm, hc⟩
    | succ n =>
      -- the fault would stand among the answers to records
      rw [List.replicate_succ', ← List.cons_append, ← List.append_assoc] at ha
      obtain ⟨hinit, -⟩ := List.append_inj' ha rfl
      refine absurd ?_ (error_notMem_okAnswers records .cancelled)
      rw [← hinit]
      exact List.mem_append_right _ List.mem_cons_self
  | ended n _ _ hl hstage hb htaken =>
    right; right
    rw [htaken, List.replicate_succ', ← List.append_assoc] at ha
    obtain ⟨hinit, hlast⟩ := List.append_inj' ha rfl
    have hn : n = 0 := by
      cases n with
      | zero => rfl
      | succ n =>
        refine absurd ?_ (none_notMem_okAnswers records)
        rw [← hinit]
        exact List.mem_append_right _ List.mem_cons_self
    rw [hn, List.replicate_zero, List.append_nil] at hinit
    -- the producer has sent everything and nothing is buffered, so everything was taken
    have hsent := hs.conserved.sent (receiver_ne_dropped hl)
    rw [hb, List.append_nil, hs.progress.completed hstage, take_recordsOf_length] at hsent
    exact ⟨(List.cons.inj hlast).1.symm, (okAnswers_injective hinit).symm.trans hsent, hstage⟩

theorem Sound.mark (h : Sound make producedBy entries t) (cancelled : Bool) :
    Sound make producedBy entries (t.mark cancelled) := by
  cases cancelled with
  | false =>
    rw [Trace.mark_false]
    exact h
  | true =>
    rw [Trace.mark_true (make t.calls)]
    exact h.step .cancel

theorem Answered.mark (h : Answered t) (hs : Sound make producedBy entries t) (cancelled : Bool) :
    Answered (t.mark cancelled) := by
  cases cancelled with
  | false =>
    rw [Trace.mark_false]
    exact h
  | true =>
    rw [Trace.mark_true (make t.calls)]
    exact h.step hs.reported (make t.calls) (.inr (.inr rfl))

/-- Asks do not call the payload function. -/
theorem after_asks (make make' : Nat → Entry → α × Stamp) (t : Trace α) (n : Nat) :
    t.after make (asks n) = t.after make' (asks n) := by
  induction n generalizing t with
  | zero => rfl
  | succ n ih => exact ih (t.step (make t.calls) (.serve .ask))

end Run

/-! ### A processor with one run -/

namespace Processor

/-- What the payload function makes of entries in its calls from now on. -/
def makeFrom (p : Processor α) (n : Nat) (e : Entry) : α × Stamp :=
  (p.payload.make (p.calls + n) e, p.payload.stamp (p.calls + n))

/-- The records that a run makes of the catalog if it is the only one from now on. -/
def upcoming (p : Processor α) : List (Record α) :=
  recordsOf p.makeFrom p.config.producerName p.catalog.entries

/-- The payload function cancels nothing in its calls from now on. -/
def IsQuiet (p : Processor α) : Prop := ∀ n, p.calls ≤ n → p.payload.cancels n = false

variable {base p q : Processor α} {token : Token} {t : Trace α} {j k : Nat}

/-- The history of the only run has led from one processor to another, and nothing else has. -/
structure Solo (base : Processor α) (token : Token) (p : Processor α) (t : Trace α) : Prop where
  runs_eq : p.runs = [t.run]
  token_eq : t.run.token = token
  capacity_eq : t.run.capacity = base.config.capacity
  cancelled_eq : t.cancelled = p.tokens.isCancelled token
  settings_eq : p.settings = base.settings
  calls_eq : p.calls = base.calls + t.calls
  tally_eq : p.tally = base.tally.incrementAll t.counts
  sound : Sound base.makeFrom base.config.producerName base.catalog.entries t
  answered : Answered t

theorem Solo.mirrors (h : Solo base token p t) : Mirrors p 0 t := by
  constructor
  · rw [h.runs_eq]
    rfl
  · rw [isCancelled, h.token_eq, h.cancelled_eq]

theorem Solo.makeNow_eq (h : Solo base token p t) : p.makeNow = base.makeFrom t.calls := by
  have hpayload : p.payload = base.payload := congrArg (·.2.2.1) h.settings_eq
  funext e
  rw [makeNow, makeFrom, hpayload, h.calls_eq]

theorem Solo.cancels_eq (hquiet : base.IsQuiet) (h : Solo base token p t) :
    p.payload.cancels p.calls = false := by
  have hpayload : p.payload = base.payload := congrArg (·.2.2.1) h.settings_eq
  rw [hpayload, h.calls_eq]
  exact hquiet _ (Nat.le_add_right _ _)

/-- The only producer moves, and its history with it. -/
theorem Solo.stepRun (h : Solo base token p t) (hq : p.stepRun j = some q) :
    let u := if j = 0 then t.step p.makeNow .produce else t
    Solo base token q (u.mark (q.isCancelled u.run)) := by
  have hmirrors := h.mirrors.stepRun hq
  obtain ⟨r, m, hr, hm, rfl⟩ := exists_moved_of_stepRun hq
  rw [h.runs_eq] at hr
  have hj : j = 0 := by
    have hlt := (List.getElem?_eq_some_iff.mp hr).1
    rw [List.length_singleton] at hlt
    exact Nat.lt_one_iff.mp hlt
  subst hj
  obtain rfl : t.run = r := Option.some.inj hr
  rw [← h.mirrors.cancelled_eq] at hm
  have hstep : t.step p.makeNow .produce = t.moved m := by
    rw [Trace.step, Run.produce_eq_some_iff.mpr hm]
  have hsettings := hm.settings_eq
  have hperform := perform_eq { p with runs := p.runs.set 0 m.run } m.effect
  have hsound := h.sound.step .produce
  have hanswered := h.answered.step h.sound.reported p.makeNow (.inl rfl)
  rw [← h.makeNow_eq, hstep] at hsound
  rw [if_pos rfl, hstep] at hmirrors
  rw [hstep] at hanswered
  rw [if_pos rfl, hstep]
  have htoken : m.run.token = token := (congrArg (·.1) hsettings).trans h.token_eq
  constructor
  case runs_eq =>
    refine (congrArg (·.runs) hperform).trans ?_
    show p.runs.set 0 m.run = [m.run]
    rw [h.runs_eq]
    rfl
  case token_eq => exact htoken
  case capacity_eq => exact (congrArg (·.2.2.1) hsettings).trans h.capacity_eq
  case cancelled_eq =>
    refine hmirrors.cancelled_eq.trans ?_
    show (p.moved 0 m).tokens.isCancelled m.run.token = _
    rw [htoken]
  case settings_eq => exact (congrArg (·.settings) hperform).trans h.settings_eq
  case calls_eq =>
    refine (congrArg (·.calls) hperform).trans ?_
    show p.calls + m.effect.calls = base.calls + (t.calls + m.effect.calls)
    rw [h.calls_eq, Nat.add_assoc]
  case tally_eq =>
    refine (congrArg (·.tally) hperform).trans ?_
    show p.tally.incrementAll m.effect.counts
      = base.tally.incrementAll (t.counts ++ m.effect.counts)
    rw [h.tally_eq, Tally.incrementAll_append]
  case sound => exact hsound.mark _
  case answered => exact hanswered.mark hsound _

/-- The consumer asks, and the history of the only run goes on. -/
theorem Solo.served {result : Option (Answer α)} {r : Run α} (h : Solo base token p t)
    (hasks : AsksTo (fun _ => p.makeNow) t (result, r)) :
    Solo base token { p with runs := p.runs.set 0 r } (t.served (.ofAnswer result, r)) := by
  obtain ⟨n, hn⟩ := hasks
  rw [Run.after_asks _ base.makeFrom] at hn
  have hsettings : (t.served (.ofAnswer result, r)).run.settings = t.run.settings := by
    rw [← hn]
    exact Trace.settings_after _ t _
  have hsound := h.sound.after (asks n)
  have hanswered := h.answered.after h.sound fun a ha => Run.isStreaming_of_mem_asks (n := n) ha
  rw [hn] at hsound hanswered
  constructor
  case runs_eq =>
    show p.runs.set 0 r = [r]
    rw [h.runs_eq]
    rfl
  case token_eq => exact (congrArg (·.1) hsettings).trans h.token_eq
  case capacity_eq => exact (congrArg (·.2.2.1) hsettings).trans h.capacity_eq
  case cancelled_eq => exact h.cancelled_eq
  case settings_eq => exact h.settings_eq
  case calls_eq => exact h.calls_eq
  case tally_eq => exact h.tally_eq
  case sound => exact hsound
  case answered => exact hanswered

/-- The history of the only run keeps track of it. -/
theorem tracks_solo : Tracks (Solo (α := α) base token) 0 where
  mirrors h := h.mirrors
  capacity_pos h := by
    rw [h.capacity_eq]
    exact base.config.capacity_pos
  answered h := h.answered
  stepRun h hq := h.stepRun hq
  served h hasks := h.served hasks

/-- When the payload function cancels nothing, the tokens stay as they are. -/
theorem tracks_quiet (hquiet : base.IsQuiet) :
    Tracks (fun p t => Solo base token p t ∧ p.tokens = base.tokens) 0 where
  mirrors h := h.1.mirrors
  capacity_pos h := tracks_solo.capacity_pos h.1
  answered h := h.1.answered
  stepRun h hq := ⟨h.1.stepRun hq, (tokens_of_stepRun (h.1.cancels_eq hquiet) hq).trans h.2⟩
  served h hasks := ⟨h.1.served hasks, h.2⟩

/-- A run that was started in a processor without runs. -/
theorem solo_startRun (p : Processor α) (parent : Token) (hruns : p.runs = []) :
    let base := p.startRun parent
    ∃ t, Solo base p.tokens.fresh base t ∧ t.run.phase = .idle ∧ t.run.isDone = false ∧
      t.answers = [] := by
  intro base
  have hsound := Sound.start base.makeFrom p.catalog p.config p.tokens.fresh
  have hanswered := Answered.start (α := α) p.catalog p.config p.tokens.fresh
  refine ⟨(Trace.start p.catalog p.config p.tokens.fresh).mark
    (base.tokens.isCancelled p.tokens.fresh), ?_, rfl, rfl, rfl⟩
  constructor
  case runs_eq =>
    show p.runs ++ [_] = [_]
    rw [hruns]
    rfl
  case cancelled_eq => exact Bool.false_or _
  case sound => exact hsound.mark _
  case answered => exact hanswered.mark hsound _
  all_goals rfl

/-- What is noted in the log is nothing to a run. -/
theorem Solo.note (h : Solo base token p t) (events : List Log.Event) :
    Solo base token (p.note events) t :=
  { h with }

/-- When the run has completed, the statistics have counted every entry. -/
theorem Solo.tally_of_completed (h : Solo base token p t)
    (hs : t.run.stage = .finished .completed) :
    p.tally = base.tally.incrementAll (base.catalog.entries.map (·.category)) := by
  have hprogress := h.sound.progress
  have hcounted : t.run.counted = base.catalog.entries.length := by
    rw [hprogress.counted_eq, hs, hprogress.completed hs]
    rfl
  rw [h.tally_eq, hprogress.counts_eq, hcounted, List.take_length]

/-! ### Reading record after record -/

/-- The consumer of the only run has got so many records and nothing else, and no token was
cancelled. -/
def Reads (base : Processor α) (token : Token) (p : Processor α) (k : Nat) : Prop :=
  ∃ t, (Solo base token p t ∧ p.tokens = base.tokens) ∧ t.run.phase = .idle ∧
    t.answers = okAnswers (base.upcoming.take k)

theorem reads_startRun (p : Processor α) (parent : Token) (hruns : p.runs = []) :
    Reads (p.startRun parent) p.tokens.fresh (p.startRun parent) 0 := by
  obtain ⟨t, ht, hidle, -, hanswers⟩ := p.solo_startRun parent hruns
  exact ⟨t, ⟨ht, rfl⟩, hidle, hanswers⟩

theorem Reads.note (h : Reads base token p k) (events : List Log.Event) :
    Reads base token (p.note events) k := by
  obtain ⟨t, ⟨ht, htokens⟩, hidle, hanswers⟩ := h
  exact ⟨t, ⟨ht.note events, htokens⟩, hidle, hanswers⟩

section Live

variable (hquiet : base.IsQuiet) (hlive : base.tokens.isCancelled token = false)
include hquiet hlive

theorem Reads.exists_nextAt (h : Reads base token p k) (pace : List Nat) :
    let out := p.nextAt pace 0
    ∃ t, (Solo base token out.2.2 t ∧ out.2.2.tokens = base.tokens) ∧
      t.run.phase = .idle ∧ t.answers = okAnswers (base.upcoming.take k) ++ [out.1] ∧
      ((∃ x, out.1 = some (.ok x) ∧ t.taken = base.upcoming.take k ++ [x]) ∨
        out.1 = none ∧ base.upcoming.take k = base.upcoming) := by
  intro out
  obtain ⟨t, ht, hidle, hanswers⟩ := h
  obtain ⟨u, hu, hidle', hanswers', -⟩ := (tracks_quiet hquiet).nextAt ht hidle pace
  rw [hanswers] at hanswers'
  refine ⟨u, hu, hidle', hanswers', ?_⟩
  obtain hnext | ⟨-, hc⟩ | ⟨hend, hall, -⟩ := hu.1.answered.last hu.1.sound hanswers'
  · exact .inl hnext
  · rw [hu.1.cancelled_eq, hu.2, hlive] at hc
    cases hc
  · exact .inr ⟨hend, hall⟩

/-- As long as records are left the answer is the next of them. -/
theorem Reads.nextAt {x : Record α} (h : Reads base token p k) (hx : base.upcoming[k]? = some x)
    (pace : List Nat) :
    let out := p.nextAt pace 0
    out.1 = some (.ok x) ∧ Reads base token out.2.2 (k + 1) := by
  intro out
  have hlt : k < base.upcoming.length := (List.getElem?_eq_some_iff.mp hx).1
  have htake : base.upcoming.take (k + 1) = base.upcoming.take k ++ [x] := by
    rw [List.take_add_one, hx]
    rfl
  obtain ⟨t, ht, hidle, hanswers, ⟨y, hy, htaken⟩ | ⟨-, hall⟩⟩ :=
    h.exists_nextAt hquiet hlive pace
  · -- the records taken are the first ones, so the last of them is the next one
    have hpre : t.taken <+: base.upcoming :=
      ht.1.sound.conserved.taken_isPrefix.trans (List.take_prefix _ _)
    have hlength : t.taken.length = k + 1 := by
      rw [htaken, List.length_append, List.length_take, Nat.min_eq_left (Nat.le_of_lt hlt)]
      rfl
    have hsame : base.upcoming.take k ++ [y] = base.upcoming.take k ++ [x] := by
      rw [← htaken, ← htake, ← hlength]
      exact List.prefix_iff_eq_take.mp hpre
    obtain rfl : y = x := (List.cons.inj (List.append_cancel_left hsame)).1
    refine ⟨hy, t, ht, hidle, ?_⟩
    rw [hanswers, hy, htake, Run.okAnswers_append]
    rfl
  · have hlength := congrArg List.length hall
    rw [List.length_take, Nat.min_eq_left (Nat.le_of_lt hlt)] at hlength
    omega

/-- After all records the answer is the end. -/
theorem Reads.nextAt_of_end (h : Reads base token p k) (hk : base.upcoming.length ≤ k)
    (pace : List Nat) :
    let out := p.nextAt pace 0
    out.1 = none ∧ out.2.2.tokens = base.tokens := by
  intro out
  obtain ⟨t, ht, -, -, ⟨y, -, htaken⟩ | ⟨hnone, -⟩⟩ := h.exists_nextAt hquiet hlive pace
  · -- more records cannot have been taken than there are
    have hlength : t.taken.length ≤ base.upcoming.length :=
      (ht.1.sound.conserved.taken_isPrefix.trans (List.take_prefix _ _)).length_le
    rw [htaken, List.take_of_length_le hk, List.length_append, List.length_singleton] at hlength
    omega
  · exact ⟨hnone, ht.2⟩

end Live

end Processor

end EmojiCatalog
