import EmojiCatalog.Proofs.Processor.Mirror
import EmojiCatalog.Proofs.Run.Calls
/-!
Calls for the next record of a run.

`Tracks R i` says that the relation `R` keeps track of the run of number `i`: it relates a processor
to a history in which the consumer of that run only called for the next record, and goes on to do so
when any producer makes a step and when the run's own consumer asks.

A call that waits is answered as soon as the producers have come to rest (`Tracks.next`): the run's
own producer has then ended, or it is held up by a full buffer, and a buffer holds at least one
record.  The same holds of a call during which the producers go on at any pace (`Tracks.nextAt`).
-/

namespace EmojiCatalog.Processor

open Run (Trace Act Answered AsksTo)

variable {α : Type} {p q : Processor α} {i j : Nat} {t : Trace α}

/-- The relation ties a processor to a history of its run of the given number, whose consumer only
calls for the next record. -/
structure Tracks (R : Processor α → Trace α → Prop) (i : Nat) : Prop where
  mirrors : ∀ {p t}, R p t → Mirrors p i t
  capacity_pos : ∀ {p t}, R p t → 0 < t.run.capacity
  answered : ∀ {p t}, R p t → Answered t
  stepRun : ∀ {p q t j}, R p t → p.stepRun j = some q →
    let u := if j = i then t.step p.makeNow .produce else t
    R q (u.mark (q.isCancelled u.run))
  served : ∀ {p t} {result : Option (Answer α)} {r : Run α}, R p t →
    AsksTo (fun _ => p.makeNow) t (result, r) →
    R { p with runs := p.runs.set i r } (t.served (.ofAnswer result, r))

variable {R : Processor α → Trace α → Prop}

/-- A step of any producer leaves the run's consumer alone. -/
theorem Tracks.exists_of_stepRun (hR : Tracks R i) (h : R p t) (hq : p.stepRun j = some q) :
    ∃ u, R q u ∧ u.run.downstream = t.run.downstream ∧ u.answers = t.answers ∧
      q.settings = p.settings := by
  obtain ⟨-, -, -, -, -, hsettings, -, -⟩ := Processor.exists_of_stepRun hq
  refine ⟨_, hR.stepRun h hq, ?_, ?_, hsettings⟩
  · show (if j = i then t.step p.makeNow .produce else t).run.downstream = t.run.downstream
    split
    · exact (Trace.step_produce_frame p.makeNow t).1
    · rfl
  · show (if j = i then t.step p.makeNow .produce else t).answers = t.answers
    split
    · exact (Trace.step_produce_frame p.makeNow t).2.1
    · rfl

theorem Tracks.settleWithin (hR : Tracks R i) (h : R p t) (n : Nat) :
    ∃ u, R (settleWithin n p) u ∧ u.run.downstream = t.run.downstream ∧
      u.answers = t.answers ∧ (settleWithin n p).settings = p.settings := by
  induction n generalizing p t with
  | zero => exact ⟨t, h, rfl, rfl, rfl⟩
  | succ n ih =>
    unfold Processor.settleWithin
    split
    next q hq =>
      obtain ⟨j, hj⟩ := exists_of_stepAny hq
      obtain ⟨u, hu, hdown, hanswers, hsettings⟩ := hR.exists_of_stepRun h hj
      obtain ⟨v, hv, hdown', hanswers', hsettings'⟩ := ih hu
      exact ⟨v, hv, hdown'.trans hdown, hanswers'.trans hanswers, hsettings'.trans hsettings⟩
    next => exact ⟨t, h, rfl, rfl, rfl⟩

/-- A call that is so many asks continues the history. -/
theorem Tracks.call (hR : Tracks R i) (h : R p t)
    {f : Bool → Run α → Option (Answer α) × Run α} {result : Option (Answer α)} {r : Run α}
    (hf : f t.cancelled t.run = (result, r)) (hasks : AsksTo (fun _ => p.makeNow) t (result, r)) :
    p.withRun i f = (result, { p with runs := p.runs.set i r }) ∧
      R { p with runs := p.runs.set i r } (t.served (.ofAnswer result, r)) := by
  refine ⟨?_, hR.served h hasks⟩
  rw [(hR.mirrors h).withRun_eq, hf]

/-- Once the producers have come to rest, a call that waits is answered. -/
theorem Tracks.resume (hR : Tracks R i) (h : R p t) (hp : t.run.phase = .polling)
    (hrest : p.stepAny = none) :
    ∃ a u, p.withRun i Run.resume = (some a, { p with runs := p.runs.set i u.run }) ∧
      R { p with runs := p.runs.set i u.run } u ∧ u.run.phase = .idle ∧
      u.answers = t.answers ++ [a] := by
  have hready : t.run.buffer ≠ [] ∨ t.run.isFinished = true := by
    -- at rest the producer has ended, or a full buffer holds it up
    obtain hf | ⟨-, -, hfull, -⟩ := (hR.mirrors h).of_stepAny_eq_none hrest
    · exact .inr hf
    · left
      apply List.ne_nil_of_length_pos
      exact Nat.lt_of_lt_of_le (hR.capacity_pos h) hfull
  have hsome := Run.isSome_resume t.cancelled hready
  rcases hresume : t.run.resume t.cancelled with ⟨- | a, r⟩
  · rw [hresume] at hsome
    cases hsome
  · obtain ⟨hw, hr⟩ := hR.call h hresume (hresume ▸ Run.asksTo_resume _ hp)
    exact ⟨a, t.served (.ofAnswer (some a), r), hw, hr, Run.phase_resume_of_some hresume, rfl⟩

theorem next_of_wait {p' : Processor α} {a : Answer α} (h : p.withRun i Run.next = (none, q))
    (h' : q.settle.withRun i Run.resume = (some a, p')) : p.next i = (a, p') := by
  rw [Processor.next, h]
  dsimp only
  rw [h']
  rfl

/-- Every call of a consumer that does nothing else is answered. -/
theorem Tracks.next (hR : Tracks R i) (h : R p t) (hp : t.run.phase = .idle) :
    ∃ u, R (p.next i).2 u ∧ u.run.phase = .idle ∧ u.answers = t.answers ++ [(p.next i).1] ∧
      (p.next i).2.settings = p.settings := by
  rcases hnext : t.run.next t.cancelled with ⟨- | a, r⟩
  · obtain ⟨hw, hr⟩ := hR.call h hnext (hnext ▸ Run.asksTo_next _ hp)
    have hq : settings { p with runs := p.runs.set i r } = p.settings := rfl
    have hphase : r.phase = .polling :=
      Run.phase_next_of_none ((hR.answered h).listening_of_next hp (by rw [hnext])) hnext
    -- the call waits, the producers come to rest, and the call is resumed
    generalize { p with runs := p.runs.set i r } = q at hw hr hq
    obtain ⟨v, hv, hdown, hanswers, hsettings⟩ := hR.settleWithin hr q.work
    have hphase' : v.run.phase = .polling := (congrArg (·.2.1) hdown).trans hphase
    obtain ⟨a, u, hw', hu, hidle, ha⟩ :=
      hR.resume hv hphase' (stepAny_settleWithin (Nat.le_refl _))
    rw [next_of_wait hw hw']
    refine ⟨u, hu, hidle, ?_, hsettings.trans hq⟩
    rw [ha, hanswers]
    exact congrArg (· ++ [a]) (List.append_nil _)
  · -- the call is answered without the producers
    obtain ⟨hw, hr⟩ := hR.call h hnext (hnext ▸ Run.asksTo_next _ hp)
    rw [Processor.next, hw]
    exact ⟨_, hr, Run.phase_next_of_some hp hnext, rfl, rfl⟩

/-! ### Calls at a pace -/

/-- Once the producers have come to rest, a call in any of its phases needs none of them. -/
theorem Tracks.isReady (hR : Tracks R i) (h : R p t) (hrest : p.stepAny = none) :
    t.run.IsReady := by
  obtain hf | ⟨-, hl, hfull, -⟩ := (hR.mirrors h).of_stepAny_eq_none hrest
  · exact .inl hf
  · have hb : t.run.buffer ≠ [] := by
      apply List.ne_nil_of_length_pos
      exact Nat.lt_of_lt_of_le (hR.capacity_pos h) hfull
    -- a call that awaits the report has found the buffer empty
    refine .inr ⟨hb, fun hp => ?_⟩
    cases hR.answered h with
    | reading _ hp' _ _ _ => exact hp' hp
    | closing _ _ _ _ _ _ hb' => exact hb hb'
    | failed _ _ hp' _ _ | ended _ _ hp' _ _ _ _ => cases hp'.symm.trans hp

theorem callAt_nil_of_eq {a : Answer α}
    (h : p.settle.withRun i (Run.consumeWithin Phase.count) = (some a, q)) :
    callAt [] p i = (a, [], q) := by
  rw [callAt, h]
  rfl

theorem callAt_cons_of_some {a : Answer α} {steps : Nat} (pace : List Nat)
    (h : (Processor.settleWithin steps p).withRun i Run.consume = (some a, q)) :
    callAt (steps :: pace) p i = (a, pace, q) := by
  rw [callAt, h]

theorem callAt_cons_of_none {steps : Nat} (pace : List Nat)
    (h : (Processor.settleWithin steps p).withRun i Run.consume = (none, q)) :
    callAt (steps :: pace) p i = callAt pace q i := by
  rw [callAt, h]

/-- A call is answered at every pace. -/
theorem Tracks.callAt (hR : Tracks R i) (h : R p t) (pace : List Nat) :
    let out := callAt pace p i
    ∃ u, R out.2.2 u ∧ u.run.phase = .idle ∧ u.answers = t.answers ++ [out.1] ∧
      out.2.2.settings = p.settings := by
  induction pace generalizing p t with
  | nil =>
    intro out
    obtain ⟨v, hv, -, hanswers, hsettings⟩ := hR.settleWithin h p.work
    have hready := hR.isReady hv (stepAny_settleWithin (Nat.le_refl _))
    have hsome := Run.isSome_consumeWithin v.cancelled hready v.run.phasesLeft_le
    rcases hconsume : v.run.consumeWithin Phase.count v.cancelled with ⟨- | a, r⟩
    · rw [hconsume] at hsome
      cases hsome
    · obtain ⟨hw, hr⟩ := hR.call hv hconsume (hconsume ▸ Run.asksTo_consumeWithin _ v _)
      have hout : out = _ := callAt_nil_of_eq hw
      rw [hout, ← hanswers]
      exact ⟨_, hr, Run.phase_consumeWithin_of_some hconsume, rfl, hsettings⟩
  | cons steps pace ih =>
    intro out
    obtain ⟨v, hv, -, hanswers, hsettings⟩ := hR.settleWithin h steps
    rcases hconsume : v.run.consume v.cancelled with ⟨- | a, r⟩
    · obtain ⟨hw, hr⟩ := hR.call hv hconsume (.one hconsume)
      have hout : out = _ := callAt_cons_of_none pace hw
      obtain ⟨u, hu, hidle, hanswers', hsettings'⟩ := ih hr
      rw [hout]
      refine ⟨u, hu, hidle, ?_, hsettings'.trans hsettings⟩
      rw [hanswers', ← hanswers]
      exact congrArg (· ++ _) (List.append_nil _)
    · obtain ⟨hw, hr⟩ := hR.call hv hconsume (.one hconsume)
      have hout : out = _ := callAt_cons_of_some pace hw
      rw [hout, ← hanswers]
      exact ⟨_, hr, Run.phase_consume_of_some hconsume, rfl, hsettings⟩

/-- Every call of a consumer that does nothing else is answered, at every pace. -/
theorem Tracks.nextAt (hR : Tracks R i) (h : R p t) (hp : t.run.phase = .idle) (pace : List Nat) :
    let out := nextAt pace p i
    ∃ u, R out.2.2 u ∧ u.run.phase = .idle ∧ u.answers = t.answers ++ [out.1] ∧
      out.2.2.settings = p.settings := by
  cases pace with
  | nil => exact hR.next h hp
  | cons steps pace => exact hR.callAt h (steps :: pace)

end EmojiCatalog.Processor
