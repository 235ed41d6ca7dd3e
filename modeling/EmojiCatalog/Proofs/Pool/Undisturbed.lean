import EmojiCatalog.Proofs.Pool.Outcomes
import EmojiCatalog.Proofs.Search.Blocks
/-!
Pools that nothing disturbs.

A pool whose token is not cancelled at the start and whose plan cancels nothing is never cancelled,
in whatever order its workers move, so its outcome is that of the workers one after the other
(`Pool.outcome_run_of_undisturbed`).  The default plan is such a plan.  Its queries have no filters,
and without filters every search is answered; so each worker puts all of its queries and gets all of
them answered (`Pool.outcome_run_perWorker`).
-/

namespace EmojiCatalog

variable {c : Catalog} {plan : Plan} {limit id n : Nat}

namespace Pool

/-- What every step of a worker preserves holds of a pool that has taken turns. -/
theorem run_of_advance {P : Pool → Prop} {workerCount queries : Nat} {cancelled : Bool}
    (hadvance : ∀ p i, P p → P (p.advance c plan i)) (h : P (start workerCount queries cancelled))
    (steps : List Nat) : P (run c plan workerCount queries cancelled steps) := by
  have hturn : ∀ p i, P p → P (p.turn c plan i) := by
    intro p i hp
    exact hadvance _ i (hadvance _ i (hadvance p i hp))
  have hturns : ∀ p, P p → P (p.takeTurns c plan) := by
    intro p hp
    exact List.foldlRecOn _ _ hp fun q hq i _ => hturn q i hq
  have hrounds : ∀ k p, P p → P (rounds c plan k p) := by
    intro k
    induction k with
    | zero => exact fun p hp => hp
    | succ k ih =>
      intro p hp
      rw [rounds]
      split
      next => exact hp
      next => exact ih _ (hturns p hp)
  exact hrounds _ _ (List.foldlRecOn _ _ h fun p hp i _ => hadvance p i hp)

/-- A worker cancels the token only when the plan says so. -/
theorem cancelled_advance (hplan : ∀ id n, plan.cancels id n = false) {p : Pool} (i : Nat)
    (hp : p.cancelled = false) : (p.advance c plan i).cancelled = false := by
  obtain ⟨w, m, -, hm, h⟩ | ⟨h, -⟩ := advance_cases c plan p i
  · have hcancels : m.cancels = false := by
      cases hm with
      | ask | lose => exact hplan _ _
      | finish | stop | check | answer | fail => rfl
    rw [h]
    show (p.cancelled || m.cancels) = false
    rw [hp, hcancels]
    rfl
  · rw [h]
    exact hp

/-- The outcome of a pool that nobody cancels is that of its workers one after the other. -/
theorem outcome_run_of_undisturbed (hplan : ∀ id n, plan.cancels id n = false)
    (workerCount queries : Nat) (steps : List Nat) :
    (run c plan workerCount queries false steps).outcome
      = plan.outcomeAlone c workerCount queries := by
  obtain ⟨acts, hrun, hf⟩ := run_eq_after c plan workerCount queries false steps
  have hc : (run c plan workerCount queries false steps).cancelled = false :=
    run_of_advance (P := fun p => p.cancelled = false)
      (fun _ i hp => cancelled_advance hplan i hp) rfl steps
  have hsound := (Sound.start c plan workerCount queries false).after acts
  rw [← hrun] at hsound
  exact hsound.outcome_eq hf hc

end Pool

/-! ### The default plan -/

/-- Every query of the default plan is answered. -/
theorem Plan.answers_perWorker :
    (perWorker limit).isAnswered c id n = true ∧ (perWorker limit).isRefused c id n = false := by
  obtain ⟨hits, h⟩ : ∃ hits, c.search (defaultQuery limit id n) = .ok hits :=
    c.exists_search_unfiltered _ limit
  simp only [isAnswered, isRefused, perWorker, Option.any_some, h]
  exact ⟨rfl, rfl⟩

/-- Under the default plan a worker alone gets all of its queries answered. -/
theorem Plan.tallyAlone_perWorker :
    (perWorker limit).tallyAlone c id n = some ⟨id, n, n, 0, false⟩ := by
  have hlasts : (perWorker limit).lasts id n = true :=
    List.all_eq_true.mpr fun _ _ => rfl
  have hanswered : (List.range n).countP ((perWorker limit).isAnswered c id) = n := by
    rw [List.countP_eq_length.mpr fun _ _ => answers_perWorker.1, List.length_range]
  have hrefused : (List.range n).countP ((perWorker limit).isRefused c id) = 0 :=
    List.countP_eq_zero.mpr fun _ _ h => Bool.noConfusion (answers_perWorker.2.symm.trans h)
  rw [tallyAlone_eq_some_iff, hanswered, hrefused]
  exact ⟨hlasts, rfl⟩

/-- The outcome of a pool in which every worker gets all of its queries answered. -/
def PoolOutcome.allAnswered (workerCount queries : Nat) : PoolOutcome where
  totalQueries := workerCount * queries
  totalSuccess := workerCount * queries
  totalErrors := 0
  workers := (List.range workerCount).map fun i => ⟨i, queries, queries, 0, false⟩
  cancelled := false
  failedWorkers := 0

/-- Under the default plan a pool that is not cancelled gets all of its queries answered. -/
theorem Pool.outcome_run_perWorker (c : Catalog) (limit workerCount queries : Nat)
    (steps : List Nat) :
    (run c (.perWorker limit) workerCount queries false steps).outcome
      = .allAnswered workerCount queries := by
  rw [outcome_run_of_undisturbed fun _ _ => rfl]
  have hkept : (List.range workerCount).filterMap
        (fun i => (Plan.perWorker limit).tallyAlone c i queries)
      = (List.range workerCount).map fun i => ⟨i, queries, queries, 0, false⟩ := by
    simp only [Plan.tallyAlone_perWorker]
    exact congrFun List.filterMap_eq_map _
  have hlost : (List.range workerCount).countP (fun i => !(Plan.perWorker limit).lasts i queries)
      = 0 := by
    rw [List.countP_eq_zero]
    intro i _ h
    rw [← Plan.isSome_tallyAlone (c := c), Plan.tallyAlone_perWorker] at h
    cases h
  simp only [Plan.outcomeAlone, hkept, hlost, sumOf_map, sumOf_const, List.length_range,
    Nat.mul_zero, PoolOutcome.allAnswered]

end EmojiCatalog
