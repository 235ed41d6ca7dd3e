import EmojiCatalog.Proofs.Run.Delivery
import EmojiCatalog.Proofs.Run.Reach
/-!
Whole calls for the next record.

`Run.next` and `Run.resume` take a call as far as it goes without the producer.  They are asks with
nothing in between (`asksTo_next`, `asksTo_resume`), so what holds after every history of asks holds
of them.  A call stays without an answer only when the producer is at work and the buffer is empty,
and then it can be resumed.

`Run.consumeWithin` goes on from any phase of a call.  Once the producer has nothing to add
(`IsReady`) every ask leads to the next phase, so the call is answered after as many as there are
phases (`isSome_consumeWithin`).
-/

namespace EmojiCatalog.Run

variable {α : Type} {cancelled : Bool} {r r' : Run α}

/-! ### Resuming -/

/-- `Resumes cancelled r p`: resuming a call comes to `p`, an answer or none yet and the run after
it. -/
inductive Resumes (cancelled : Bool) (r : Run α) : Option (Answer α) × Run α → Prop
  | cut (hc : cancelled = true) : Resumes cancelled r (some (some (.error .cancelled)), r.stop)
  | take {x rest} (hc : cancelled = false) (hb : r.buffer = x :: rest) :
      Resumes cancelled r
        (some (some (.ok x)), { r with buffer := rest, taken := r.taken + 1, phase := .idle })
  | wait (hc : cancelled = false) (hb : r.buffer = []) (hd : r.isDrying = false) :
      Resumes cancelled r (none, { r with phase := .polling })
  | fail {f} (hc : cancelled = false) (hb : r.buffer = []) (hd : r.isDrying = true)
      (hr : r.report = some f) :
      Resumes cancelled r
        (some (some (.error f)), { r with isDone := true, report := none, phase := .idle })
  | finish (hc : cancelled = false) (hb : r.buffer = []) (hd : r.isDrying = true)
      (hr : r.report = none) (hf : r.isFinished = true) :
      Resumes cancelled r (some none, { r with isDone := true, phase := .idle })
  | await (hc : cancelled = false) (hb : r.buffer = []) (hd : r.isDrying = true)
      (hr : r.report = none) (hf : r.isFinished = false) :
      Resumes cancelled r (none, { r with isDone := true, phase := .awaitingReport })

theorem receive_of_cons {x : Record α} {rest : List (Record α)} (hb : r.buffer = x :: rest) :
    r.receive
      = (some (some (.ok x)), { r with buffer := rest, taken := r.taken + 1, phase := .idle }) := by
  rw [receive, hb]

theorem receive_of_nil (hb : r.buffer = []) :
    r.receive = if r.isDrying then (none, { r with isDone := true, phase := .awaitingReport })
      else (none, { r with phase := .polling }) := by
  rw [receive, hb]

theorem resumes_resume (cancelled : Bool) (r : Run α) :
    Resumes cancelled r (r.resume cancelled) := by
  cases cancelled with
  | true => exact .cut rfl
  | false =>
    cases hb : r.buffer with
    | cons x rest =>
      have hreceive := receive_of_cons (r := { r with phase := .receiving }) hb
      simp only [resume, poll, Bool.false_eq_true, if_false, hreceive]
      exact .take rfl hb
    | nil =>
      have hreceive := receive_of_nil (r := { r with phase := .receiving }) hb
      cases hd : r.isDrying with
      | false =>
        rw [show isDrying { r with phase := .receiving } = false from hd] at hreceive
        simp only [resume, poll, Bool.false_eq_true, if_false, hreceive]
        exact .wait rfl hb hd
      | true =>
        rw [show isDrying { r with phase := .receiving } = true from hd] at hreceive
        simp only [resume, poll, Bool.false_eq_true, if_false, hreceive, if_true]
        unfold takeReport
        split
        next hr => exact .fail rfl hb hd hr
        next hr =>
          split
          next hf => exact .finish rfl hb hd hr hf
          next hf => exact .await rfl hb hd hr (Bool.eq_false_iff.mpr hf)

/-- A call is answered as soon as something is buffered or the producer has ended. -/
theorem isSome_resume (cancelled : Bool) (h : r.buffer ≠ [] ∨ r.isFinished = true) :
    (r.resume cancelled).1.isSome = true := by
  have hresumes := resumes_resume cancelled r
  generalize r.resume cancelled = p at hresumes ⊢
  cases hresumes with
  | wait _ hb hd =>
    obtain h | h := h
    · exact absurd hb h
    · rw [isDrying, h] at hd
      cases hd
  | await _ hb _ _ hf =>
    obtain h | h := h
    · exact absurd hb h
    · rw [h] at hf
      cases hf
  | _ => rfl

theorem phase_resume_of_some {a : Answer α} (h : r.resume cancelled = (some a, r')) :
    r'.phase = .idle := by
  have hresumes := resumes_resume cancelled r
  rw [h] at hresumes
  cases hresumes <;> rfl

/-- A call that waits while its consumer is listening can be resumed. -/
theorem phase_resume_of_none (hl : r.receiver = .listening)
    (h : r.resume cancelled = (none, r')) : r'.phase = .polling := by
  have hresumes := resumes_resume cancelled r
  rw [h] at hresumes
  cases hresumes with
  | wait => rfl
  | await _ _ hd _ hf =>
    rw [isDrying, hf, hl] at hd
    cases hd

/-! ### Calls as asks -/

/-- So many asks with nothing in between. -/
def asks (n : Nat) : List Act := List.replicate n (.serve .ask)

theorem isStreaming_of_mem_asks {n : Nat} {a : Act} (h : a ∈ asks n) : a.IsStreaming :=
  .inr (.inl (List.eq_of_mem_replicate h))

/-- `AsksTo make t p`: asks with nothing in between come to `p`, an answer or none yet and the run
after them. -/
def AsksTo (make : Nat → Entry → α × Stamp) (t : Trace α) (p : Option (Answer α) × Run α) : Prop :=
  ∃ n, t.after make (asks n) = t.served (.ofAnswer p.1, p.2)

variable {make : Nat → Entry → α × Stamp} {t : Trace α} {p : Option (Answer α) × Run α}

theorem AsksTo.one (h : t.run.consume t.cancelled = p) : AsksTo make t p := by
  refine ⟨1, ?_⟩
  rw [← h]
  rfl

theorem AsksTo.more {r : Run α} (h : t.run.consume t.cancelled = (none, r))
    (h' : AsksTo make { t with run := r } p) : AsksTo make t p := by
  obtain ⟨n, hn⟩ := h'
  refine ⟨n + 1, ?_⟩
  show (t.step (make t.calls) (.serve .ask)).after make (asks n) = _
  rw [Trace.step_serve, serve, h, Reply.ofAnswer, Trace.served_nothing]
  exact hn

/-- Resuming a call is so many asks. -/
theorem asksTo_resume (make : Nat → Entry → α × Stamp) (hp : t.run.phase = .polling) :
    AsksTo make t (t.run.resume t.cancelled) := by
  have hconsume : t.run.consume t.cancelled = t.run.poll t.cancelled := by rw [consume, hp]
  -- at most three asks: the poll, the receipt, and the look at the report
  unfold resume
  rcases hpoll : t.run.poll t.cancelled with ⟨- | a, r⟩
  · have hr : r.phase = .receiving := by
      unfold poll at hpoll
      split at hpoll
      · cases hpoll
      · cases hpoll
        rfl
    have hconsume' : r.consume t.cancelled = r.receive := by rw [consume, hr]
    refine .more (hconsume.trans hpoll) ?_
    rcases hreceive : r.receive with ⟨- | a, r'⟩
    · simp only [hreceive]
      split
      next hr' =>
        refine .more (hconsume'.trans hreceive) (.one ?_)
        show r'.consume t.cancelled = _
        rw [consume, hr']
      next => exact .one (hconsume'.trans hreceive)
    · simp only [hreceive]
      exact .one (hconsume'.trans hreceive)
  · exact .one (hconsume.trans hpoll)

/-- A call is so many asks. -/
theorem asksTo_next (make : Nat → Entry → α × Stamp) (hp : t.run.phase = .idle) :
    AsksTo make t (t.run.next t.cancelled) := by
  have hconsume : t.run.consume t.cancelled = t.run.begin t.cancelled := by rw [consume, hp]
  unfold next
  rcases hbegin : t.run.begin t.cancelled with ⟨- | a, r⟩
  · have hr : r.phase = .polling := by
      unfold begin at hbegin
      split at hbegin
      · cases hbegin
      · split at hbegin
        · cases hbegin
        · cases hbegin
          rfl
    exact .more (hconsume.trans hbegin) (asksTo_resume (t := { t with run := r }) make hr)
  · exact .one (hconsume.trans hbegin)

/-- Making some steps is so many asks. -/
theorem asksTo_consumeWithin (make : Nat → Entry → α × Stamp) (t : Trace α) (n : Nat) :
    AsksTo make t (t.run.consumeWithin n t.cancelled) := by
  induction n generalizing t with
  | zero => exact ⟨0, (Trace.served_nothing t.run).symm⟩
  | succ n ih =>
    rw [consumeWithin]
    split
    next h => exact .one h
    next r h => exact .more h (ih { t with run := r })

/-! ### Calls that need no producer -/

/-- The producer has ended, or a record is there for the call to take. -/
def IsReady (r : Run α) : Prop :=
  r.isFinished = true ∨ r.buffer ≠ [] ∧ r.phase ≠ .awaitingReport

/-- The number of phases from the one in which a call stands to its answer, if it does not wait. -/
def phasesLeft (r : Run α) : Nat :=
  match r.phase with
  | .idle => 4
  | .polling => 3
  | .receiving => 2
  | .awaitingReport => 1

theorem phasesLeft_le (r : Run α) : r.phasesLeft ≤ Phase.count := by
  unfold phasesLeft
  split <;> decide

/-- A call that needs no producer is answered or comes to its next phase. -/
theorem Asks.isReady (h : Asks cancelled r (none, r')) (hr : r.IsReady) :
    r'.IsReady ∧ r'.phasesLeft < r.phasesLeft := by
  cases h with
  | enter hp _ _ | look hp _ =>
    simp only [phasesLeft, hp]
    refine ⟨hr.imp id fun h => ⟨h.1, nofun⟩, by decide⟩
  | wait hp hb hd =>
    obtain hf | ⟨hb', -⟩ := hr
    · rw [isDrying, hf] at hd
      cases hd
    · exact absurd hb hb'
  | dry hp hb _ =>
    simp only [phasesLeft, hp]
    refine ⟨.inl (hr.resolve_right fun h => h.1 hb), by decide⟩
  | await hp _ hf =>
    obtain hf' | ⟨-, hp'⟩ := hr
    · rw [hf] at hf'
      cases hf'
    · exact absurd hp hp'

theorem isSome_consumeWithin {n : Nat} (cancelled : Bool) (hr : r.IsReady)
    (hn : r.phasesLeft ≤ n) : (r.consumeWithin n cancelled).1.isSome = true := by
  induction n generalizing r with
  | zero =>
    unfold phasesLeft at hn
    split at hn <;> cases hn
  | succ n ih =>
    rw [consumeWithin]
    split
    next => rfl
    next r' h =>
      obtain ⟨hr', hlt⟩ := (h ▸ asks_consume cancelled r : Asks cancelled r (none, r')).isReady hr
      exact ih hr' (by omega)

/-! ### The phase after a call -/

theorem Asks.phase_of_some {a : Answer α} (h : Asks cancelled r (some a, r')) :
    r'.phase = .idle := by
  cases h with
  | atEnd hp _ => exact hp
  | cut | take | fail | finish => rfl

theorem phase_consume_of_some {a : Answer α} (h : r.consume cancelled = (some a, r')) :
    r'.phase = .idle :=
  (h ▸ asks_consume cancelled r : Asks cancelled r (some a, r')).phase_of_some

theorem phase_consumeWithin_of_some {n : Nat} {a : Answer α}
    (h : r.consumeWithin n cancelled = (some a, r')) : r'.phase = .idle := by
  induction n generalizing r with
  | zero => cases h
  | succ n ih =>
    rw [consumeWithin] at h
    split at h
    next b r₁ hconsume =>
      cases h
      exact phase_consume_of_some hconsume
    next => exact ih h

theorem phase_next_of_some {a : Answer α} (hp : r.phase = .idle)
    (h : r.next cancelled = (some a, r')) : r'.phase = .idle := by
  unfold next at h
  rcases hbegin : r.begin cancelled with ⟨- | b, r₁⟩
  · rw [hbegin] at h
    exact phase_resume_of_some h
  · rw [hbegin] at h
    cases h
    unfold begin at hbegin
    split at hbegin
    · cases hbegin
      exact hp
    · split at hbegin
      · cases hbegin
        rfl
      · cases hbegin

theorem phase_next_of_none (hl : r.receiver = .listening) (h : r.next cancelled = (none, r')) :
    r'.phase = .polling := by
  unfold next at h
  rcases hbegin : r.begin cancelled with ⟨- | b, r₁⟩
  · rw [hbegin] at h
    have hl' : r₁.receiver = .listening := by
      unfold begin at hbegin
      split at hbegin
      · cases hbegin
      · split at hbegin
        · cases hbegin
        · cases hbegin
          exact hl
    exact phase_resume_of_none hl' h
  · rw [hbegin] at h
    cases h

theorem next_of_isDone (h : r.isDone = true) : r.next cancelled = (some none, r) := by
  rw [next, begin, if_pos h]

/-- A call that begins under a cancelled token meets the cancellation. -/
theorem begin_of_cancelled (hd : r.isDone = false) :
    r.begin true = (some (some (.error .cancelled)), r.stop) := by
  rw [begin, hd]
  rfl

theorem next_of_cancelled (hd : r.isDone = false) :
    r.next true = (some (some (.error .cancelled)), r.stop) := by
  rw [next, begin_of_cancelled hd]

/-- A consumer that does nothing but call is listening when it has to wait. -/
theorem Answered.listening_of_next (h : Answered t) (hp : t.run.phase = .idle)
    (hnext : (t.run.next t.cancelled).1 = none) : t.run.receiver = .listening := by
  cases h with
  | reading _ _ hl _ _ => exact hl
  | closing _ hp' _ _ _ _ _ => cases hp.symm.trans hp'
  | failed _ hd _ _ _ | ended _ hd _ _ _ _ _ =>
    rw [next_of_isDone hd] at hnext
    cases hnext

end EmojiCatalog.Run
