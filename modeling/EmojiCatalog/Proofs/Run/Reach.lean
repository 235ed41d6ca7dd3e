import EmojiCatalog.Proofs.Run.Trace
/-!
Histories that are put together act by act.

In a history of one run the payload function is given beforehand, for every number of a call.  When
a run is one of several, what the payload function makes of an entry is only known when it is
called.  `Leads ok makes t u` says that some history leads from `t` to `u`, with acts and results of
the payload function of a certain kind; it can be continued by one act with any result of that kind
(`Leads.step`).  The reason is that a history depends on no call of the payload function that it has
not come to (`after_congr`).
-/

namespace EmojiCatalog.Run

variable {α : Type}

/-! ### The calls that a history depends on -/

theorem produce_congr {cancelled : Bool} {r : Run α} {f g : Entry → α × Stamp}
    (hs : ∀ e, r.stage ≠ .building e) : r.produce cancelled f = r.produce cancelled g := by
  unfold produce
  cases h : r.stage with
  | building e => exact absurd h (hs e)
  | _ => rfl

namespace Trace

variable {make make' : Nat → Entry → α × Stamp} {t u : Trace α} {acts : List Act}

theorem calls_le_calls_step (f : Entry → α × Stamp) (t : Trace α) (a : Act) :
    t.calls ≤ (t.step f a).calls := by
  refine step_cases (P := fun u => t.calls ≤ u.calls) (Nat.le_refl _) ?_ ?_ (Nat.le_refl _)
  · exact fun m _ => Nat.le_add_right _ _
  · exact fun q _ => Nat.le_refl _

theorem calls_le_calls_after (make : Nat → Entry → α × Stamp) (t : Trace α) (acts : List Act) :
    t.calls ≤ (t.after make acts).calls := by
  refine after_of_step (P := fun u => t.calls ≤ u.calls) ?_ (Nat.le_refl _)
  intro u a _ h
  exact Nat.le_trans h (calls_le_calls_step (make u.calls) u a)

/-- An act depends on the payload function only if it calls it. -/
theorem step_congr {f g : Entry → α × Stamp} (t : Trace α) (a : Act)
    (h : t.calls < (t.step f a).calls → f = g) : t.step f a = t.step g a := by
  cases a with
  | serve q => rfl
  | cancel => rfl
  | produce =>
    -- the payload function is called in one stage only, and there the number of calls grows
    by_cases hs : ∃ e, t.run.stage = .building e
    · obtain ⟨e, hs⟩ := hs
      rw [h]
      obtain ⟨m, hm, he⟩ : ∃ m, Moves t.cancelled f t.run m ∧ m.effect = .callPayload :=
        ⟨_, .call hs, rfl⟩
      rw [step, produce_eq_some_iff.mpr hm]
      show t.calls < t.calls + m.effect.calls
      rw [he]
      exact Nat.lt_succ_self _
    · rw [step, step, produce_congr fun e he => hs ⟨e, he⟩]

/-- A history depends only on the calls of the payload function that it comes to. -/
theorem after_congr (h : ∀ n, n < (t.after make acts).calls → make n = make' n) :
    t.after make acts = t.after make' acts := by
  induction acts generalizing t with
  | nil => rfl
  | cons a acts ih =>
    rw [after_cons] at h
    have hstep : t.step (make t.calls) a = t.step (make' t.calls) a := by
      apply step_congr
      intro hlt
      exact h _ (Nat.lt_of_lt_of_le hlt (calls_le_calls_after make _ acts))
    rw [after_cons, after_cons, ← hstep]
    exact ih h

/-! ### Continuing a history -/

/-- `Leads ok makes t u`: a history of acts that are `ok`, in which the payload function makes of
entries what `makes` allows, leads from `t` to `u`. -/
def Leads (ok : Act → Prop) (makes : (Entry → α × Stamp) → Prop) (t u : Trace α) : Prop :=
  ∃ make acts, (∀ n, makes (make n)) ∧ (∀ a ∈ acts, ok a) ∧ u = t.after make acts

variable {ok : Act → Prop} {makes : (Entry → α × Stamp) → Prop} {f : Entry → α × Stamp}

theorem Leads.refl (hf : makes f) (t : Trace α) : Leads ok makes t t :=
  ⟨fun _ => f, [], fun _ => hf, nofun, rfl⟩

/-- A history can be continued by one act. -/
theorem Leads.step (h : Leads ok makes t u) (hf : makes f) {a : Act} (ha : ok a) :
    Leads ok makes t (u.step f a) := by
  obtain ⟨make, acts, hmake, hacts, rfl⟩ := h
  -- the calls that the history has come to stay as they are, all later ones give `f`
  let make' : Nat → Entry → α × Stamp :=
    fun n => if n < (t.after make acts).calls then make n else f
  have hsame : t.after make acts = t.after make' acts :=
    after_congr fun n hn => (if_pos hn).symm
  have hnow : make' (t.after make acts).calls = f := if_neg (Nat.lt_irrefl _)
  refine ⟨make', acts ++ [a], ?_, ?_, ?_⟩
  · intro n
    show makes (if n < (t.after make acts).calls then make n else f)
    split
    · exact hmake n
    · exact hf
  · intro b hb
    rcases List.mem_append.mp hb with hb | hb
    · exact hacts b hb
    · rw [List.mem_singleton.mp hb]
      exact ha
  · rw [after_append, ← hsame, after_cons, after_nil, hnow]

/-- A history can be continued by acts during which the payload function does not change. -/
theorem Leads.after (h : Leads ok makes t u) (hf : makes f) (hacts : ∀ a ∈ acts, ok a) :
    Leads ok makes t (u.after (fun _ => f) acts) := by
  induction acts generalizing u with
  | nil => exact h
  | cons a acts ih =>
    rw [after_cons]
    exact ih (h.step hf (hacts a List.mem_cons_self)) fun b hb =>
      hacts b (List.mem_cons_of_mem a hb)

theorem Leads.settings_eq (h : Leads ok makes t u) : u.run.settings = t.run.settings := by
  obtain ⟨make, acts, -, -, rfl⟩ := h
  exact settings_after make t acts

/-- The trace with its token cancelled, if it is to be. -/
def mark (t : Trace α) (cancelled : Bool) : Trace α :=
  { t with cancelled := t.cancelled || cancelled }

theorem cancelled_mark {b : Bool} (h : t.cancelled = true → b = true) :
    (t.mark b).cancelled = b := by
  show (t.cancelled || b) = b
  cases hc : t.cancelled with
  | false => rfl
  | true => rw [h hc, Bool.or_self]

theorem mark_false (t : Trace α) : t.mark false = t := by
  rw [mark, Bool.or_false]

/-- A mark is a cancellation. -/
theorem mark_true (f : Entry → α × Stamp) (t : Trace α) : t.mark true = t.step f .cancel := by
  rw [mark, Bool.or_true]
  rfl

theorem Leads.mark (h : Leads ok makes t u) (hf : makes f) (hok : ok .cancel) (cancelled : Bool) :
    Leads ok makes t (u.mark cancelled) := by
  cases cancelled with
  | false =>
    rw [mark_false]
    exact h
  | true =>
    rw [mark_true f]
    exact h.step hf hok

end Trace

end EmojiCatalog.Run
