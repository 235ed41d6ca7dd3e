import EmojiCatalog.Proofs.Pool.Tallies
/-!
Pools come to their end.

A worker has at most three steps to make for every query that is left, and one more to end
(`Worker.work`).  Every move uses up one of them, and nothing gives any back: other workers do not
touch it, and a cancellation only makes it end sooner.  So a history that gives every worker enough
steps ends the pool, in whatever order it gives them (`Pool.isFinished_after_of_fair`).

Taking turns is such a history (`Pool.run_eq_after`).
-/

namespace EmojiCatalog

variable {c : Catalog} {plan : Plan} {workerCount queries : Nat} {cancelled : Bool} {id : Nat}

namespace Worker

variable {w : Worker} {m : Move}

/-- A bound on the number of steps that a worker still has to make. -/
def work (queries : Nat) (w : Worker) : Nat :=
  match w.stage with
  | .checking => 3 * (queries - w.index) + 1
  | .asking => 3 * (queries - w.index)
  | .searching _ => 3 * (queries - w.index) - 1
  | .finished | .lost => 0

theorem work_le (queries : Nat) (w : Worker) : w.work queries ≤ 3 * queries + 1 := by
  unfold work
  split <;> omega

theorem work_eq_zero_of_isFinished (h : w.isFinished = true) : w.work queries = 0 := by
  obtain hs | hs := isFinished_iff.mp h <;> simp only [work, hs]

/-- A worker without work has ended. -/
theorem Sound.isFinished_of_work (h : Sound c plan queries cancelled id w)
    (hwork : w.work queries = 0) : w.isFinished = true := by
  have hstands := h.stands
  rw [isFinished_iff]
  unfold work at hwork
  cases hs : w.stage with
  | checking =>
    rw [hs] at hwork
    cases hwork
  | asking =>
    rw [hs] at hwork hstands
    have := hstands.of_asking.1
    dsimp only at hwork
    omega
  | searching q =>
    rw [hs] at hwork hstands
    have := hstands.of_searching.1
    dsimp only at hwork
    omega
  | finished => exact .inl rfl
  | lost => exact .inr rfl

/-- Every move leaves less work. -/
theorem Sound.work_lt (h : Sound c plan queries cancelled id w)
    (hm : w.Moves c plan queries cancelled m) : m.worker.work queries < w.work queries := by
  have hstands := h.stands
  cases hm with
  | finish hs _ | stop hs _ _ =>
    simp only [work, hs]
    omega
  | check hs _ _ => simp only [work, hs, Nat.lt_succ_self]
  | ask hs _ | lose hs _ =>
    rw [hs] at hstands
    have := hstands.of_asking.1
    simp only [work, hs]
    omega
  | answer hs _ | fail hs _ =>
    rw [hs] at hstands
    have := hstands.of_searching.1
    simp only [work, hs]
    omega

end Worker

namespace Pool

variable {p : Pool} {i : Nat} {w : Worker} {acts : List Act}

/-! ### Enough steps -/

theorem Sound.work_act_le (h : Sound c plan workerCount queries p) (hw : p.workers[i]? = some w)
    (a : Act) :
    ∃ w', (p.act c plan a).workers[i]? = some w' ∧
      w'.work queries ≤ w.work queries - if a = .step i then 1 else 0 := by
  obtain ⟨hw', hended⟩ | ⟨rfl, m, hm, hw'⟩ := worker_act_cases c plan hw a
  · refine ⟨w, hw', ?_⟩
    by_cases ha : a = .step i
    · -- a worker that makes no step has no work left
      rw [Worker.work_eq_zero_of_isFinished (hended ha)]
      exact Nat.zero_le _
    · rw [if_neg ha]
      exact Nat.le_refl _
  · rw [h.queries_eq] at hm
    refine ⟨m.worker, hw', ?_⟩
    rw [if_pos rfl]
    exact Nat.le_sub_one_of_lt ((h.worker i w hw).work_lt hm)

theorem Sound.work_after_le (h : Sound c plan workerCount queries p)
    (hw : p.workers[i]? = some w) (acts : List Act) :
    ∃ w', (p.after c plan acts).workers[i]? = some w' ∧
      w'.work queries ≤ w.work queries - acts.count (.step i) := by
  induction acts generalizing p w with
  | nil => exact ⟨w, hw, Nat.le_refl _⟩
  | cons a acts ih =>
    obtain ⟨w', hw', hle⟩ := h.work_act_le hw a
    obtain ⟨w'', hw'', hle'⟩ := ih (h.act a) hw'
    refine ⟨w'', hw'', ?_⟩
    simp only [List.count_cons, beq_iff_eq]
    omega

/-- A history in which every worker makes enough steps ends the pool. -/
theorem Sound.isFinished_after_of_fair (h : Sound c plan workerCount queries p)
    (hfair : ∀ i < workerCount, 3 * queries + 1 ≤ acts.count (.step i)) :
    (p.after c plan acts).isFinished = true := by
  have hafter := h.after acts
  rw [isFinished, List.all_eq_true]
  intro w' hw'
  obtain ⟨i, hi⟩ := List.getElem?_of_mem hw'
  have hlt : i < workerCount := by
    rw [← hafter.length_eq]
    exact (List.getElem?_eq_some_iff.mp hi).1
  obtain ⟨w, hw⟩ : ∃ w, p.workers[i]? = some w :=
    ⟨_, List.getElem?_eq_getElem (h.length_eq ▸ hlt)⟩
  obtain ⟨w'', hw'', hle⟩ := h.work_after_le hw acts
  obtain rfl : w' = w'' := Option.some.inj (hi.symm.trans hw'')
  have hbound := Worker.work_le queries w
  have hcount := hfair i hlt
  exact (hafter.worker i w' hi).isFinished_of_work (by omega)

/-! ### Taking turns -/

theorem foldl_advance_eq_after (steps : List Nat) (p : Pool) :
    steps.foldl (advance c plan) p = p.after c plan (steps.map .step) := by
  induction steps generalizing p with
  | nil => rfl
  | cons i steps ih =>
    rw [List.foldl_cons, ih]
    rfl

/-- The acts of one turn for each of the given workers. -/
def turnsOf (workers : List Nat) : List Act :=
  workers.flatMap fun i => List.replicate 3 (.step i)

theorem foldl_turn_eq_after (workers : List Nat) (p : Pool) :
    workers.foldl (turn c plan) p = p.after c plan (turnsOf workers) := by
  induction workers generalizing p with
  | nil => rfl
  | cons i workers ih =>
    rw [List.foldl_cons, ih]
    rfl

theorem three_le_count_turnsOf {workers : List Nat} (hi : i ∈ workers) :
    3 ≤ (turnsOf workers).count (.step i) := by
  obtain ⟨before, after, rfl⟩ := List.append_of_mem hi
  simp only [turnsOf, List.flatMap_append, List.flatMap_cons, List.count_append,
    List.count_replicate_self]
  omega

/-- Rounds of turns are a history that ends the pool, or one with a turn for every worker in each
round. -/
theorem Sound.exists_rounds_eq_after (h : Sound c plan workerCount queries p) (n : Nat) :
    ∃ acts, rounds c plan n p = p.after c plan acts ∧
      ((rounds c plan n p).isFinished = true ∨
        ∀ i < workerCount, 3 * n ≤ acts.count (.step i)) := by
  induction n generalizing p with
  | zero => exact ⟨[], rfl, .inr fun _ _ => Nat.zero_le _⟩
  | succ n ih =>
    rw [rounds]
    split
    next hfinished => exact ⟨[], rfl, .inl hfinished⟩
    next =>
      have hturns : takeTurns c plan p = p.after c plan (turnsOf (List.range workerCount)) := by
        rw [takeTurns, foldl_turn_eq_after, h.length_eq]
      obtain ⟨acts, heq, hend⟩ := ih (h.after (turnsOf (List.range workerCount)))
      rw [hturns]
      refine ⟨turnsOf (List.range workerCount) ++ acts, by rw [after_append, heq], ?_⟩
      refine hend.imp_right fun hcount i hi => ?_
      have hturn := three_le_count_turnsOf (List.mem_range.mpr hi)
      have hrest := hcount i hi
      rw [List.count_append]
      omega

/-- Enough rounds of turns end the pool. -/
theorem Sound.exists_isFinished_rounds (h : Sound c plan workerCount queries p) :
    ∃ acts, rounds c plan (queries + 1) p = p.after c plan acts ∧
      (rounds c plan (queries + 1) p).isFinished = true := by
  obtain ⟨acts, heq, hend⟩ := h.exists_rounds_eq_after (queries + 1)
  refine ⟨acts, heq, ?_⟩
  obtain hfinished | hcount := hend
  · exact hfinished
  · rw [heq]
    refine h.isFinished_after_of_fair fun i hi => ?_
    have := hcount i hi
    omega

/-- A pool that takes turns after some steps is in one of its histories, and ends. -/
theorem run_eq_after (c : Catalog) (plan : Plan) (workerCount queries : Nat) (cancelled : Bool)
    (steps : List Nat) :
    ∃ acts, run c plan workerCount queries cancelled steps
        = (start workerCount queries cancelled).after c plan acts ∧
      (run c plan workerCount queries cancelled steps).isFinished = true := by
  have hsteps := (Sound.start c plan workerCount queries cancelled).after (steps.map .step)
  rw [run, foldl_advance_eq_after]
  obtain ⟨acts, heq, hfinished⟩ := hsteps.exists_isFinished_rounds
  exact ⟨steps.map .step ++ acts, by rw [after_append, heq], hfinished⟩

end Pool

end EmojiCatalog
