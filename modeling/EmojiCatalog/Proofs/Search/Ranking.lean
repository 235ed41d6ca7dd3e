import EmojiCatalog.Search
import Mathlib.Data.List.Basic
/-!
Rankings that keep ties in order.

`Ranked score xs ys` says that `ys` lists the elements of `xs` by descending score and keeps those
of one score in the order in which `xs` has them.  Merge sort gives such a list (`ranked_mergeSort`)
and there is only one (`Ranked.unique`).

Expanding every element into a block of elements of its own score keeps a ranking
(`Ranked.flatMap`).  So it makes no difference whether blocks are ranked and then expanded, or
expanded and then ranked element by element; nothing about the blocks is needed for it, and some of
them may be empty.  Nor does it make a difference whether elements are left out before or after
(`Ranked.filter`).
-/

namespace EmojiCatalog

variable {α β : Type} {score : α → Nat} {xs ys zs : List α}

/-- `Ranked score xs ys`: `ys` has the elements of `xs` by descending score, ties in the order of
`xs`. -/
structure Ranked (score : α → Nat) (xs ys : List α) : Prop where
  perm : ys.Perm xs
  descending : ys.Pairwise fun a b => score b ≤ score a
  ties : ∀ n, (ys.filter fun a => score a = n) = xs.filter fun a => score a = n

/-- Only the scores that occur have ties. -/
theorem ranked_iff :
    Ranked score xs ys ↔ ys.Perm xs ∧ (ys.Pairwise fun a b => score b ≤ score a) ∧
      ∀ x ∈ xs, (ys.filter fun a => score a = score x) = xs.filter fun a => score a = score x := by
  constructor
  · intro h
    exact ⟨h.perm, h.descending, fun x _ => h.ties (score x)⟩
  · rintro ⟨hperm, hdescending, hties⟩
    refine ⟨hperm, hdescending, fun n => ?_⟩
    by_cases hn : ∃ x ∈ xs, score x = n
    · obtain ⟨x, hx, rfl⟩ := hn
      exact hties x hx
    · have hnone : ∀ x ∈ xs, ¬decide (score x = n) = true := by
        intro x hx heq
        exact hn ⟨x, hx, of_decide_eq_true heq⟩
      rw [List.filter_eq_nil_iff.mpr hnone,
        List.filter_eq_nil_iff.mpr fun y hy => hnone y (hperm.mem_iff.mp hy)]

instance [DecidableEq α] : Decidable (Ranked score xs ys) :=
  decidable_of_iff _ ranked_iff.symm

/-! ### Merge sort ranks -/

theorem ranked_mergeSort (score : α → Nat) (xs : List α) :
    Ranked score xs (xs.mergeSort fun a b => score b ≤ score a) := by
  have htrans : ∀ a b c, decide (score b ≤ score a) = true → decide (score c ≤ score b) = true →
      decide (score c ≤ score a) = true := by
    intro a b c hab hbc
    simp only [decide_eq_true_eq] at *
    exact Nat.le_trans hbc hab
  have htotal : ∀ a b, (decide (score b ≤ score a) || decide (score a ≤ score b)) = true := by
    intro a b
    simpa using Nat.le_total (score b) (score a)
  have hperm := List.mergeSort_perm xs fun a b => score b ≤ score a
  refine ⟨hperm, ?_, ?_⟩
  · simpa using List.pairwise_mergeSort htrans htotal xs
  · intro n
    -- the elements of one score are a sublist that is in order already, so sorting keeps it
    have hsorted : (xs.filter fun a => score a = n).Pairwise fun a b =>
        decide (score b ≤ score a) = true := by
      rw [List.pairwise_filter]
      exact List.pairwise_of_forall fun a b ha hb => by simp_all
    have hsub := (List.sublist_mergeSort htrans htotal hsorted List.filter_sublist).filter
      fun a => score a = n
    simp only [List.filter_filter, Bool.and_self] at hsub
    exact (hsub.eq_of_length (hperm.filter _).length_eq.symm).symm

/-! ### There is only one ranking -/

theorem Ranked.of_cons {y : α} (hy : Ranked score xs (y :: ys)) (hz : Ranked score xs (y :: zs)) :
    Ranked score ys zs where
  perm := (hz.perm.trans hy.perm.symm).cons_inv
  descending := hz.descending.of_cons
  ties n := by
    have h := (hz.ties n).trans (hy.ties n).symm
    rw [List.filter_cons, List.filter_cons] at h
    split at h
    · exact List.tail_eq_of_cons_eq h
    · exact h

/-- The first of a ranking has the greatest score. -/
theorem Ranked.score_le_head {y : α} (h : Ranked score xs (y :: ys)) {a : α} (ha : a ∈ xs) :
    score a ≤ score y := by
  rcases List.mem_cons.mp (h.perm.mem_iff.mpr ha) with rfl | ha
  · exact Nat.le_refl _
  · exact List.rel_of_pairwise_cons h.descending ha

theorem Ranked.unique (hy : Ranked score xs ys) (hz : Ranked score xs zs) : ys = zs := by
  induction ys generalizing xs zs with
  | nil => exact (hz.perm.trans hy.perm.symm).eq_nil.symm
  | cons y ys ih =>
    cases zs with
    | nil => exact (hy.perm.trans hz.perm.symm).eq_nil
    | cons z zs =>
      -- both begin with the first of the elements that have the greatest score
      have hscore : score z = score y :=
        Nat.le_antisymm (hy.score_le_head (hz.perm.mem_iff.mp List.mem_cons_self))
          (hz.score_le_head (hy.perm.mem_iff.mp List.mem_cons_self))
      have hties := (hy.ties (score y)).trans (hz.ties (score y)).symm
      simp only [List.filter_cons, hscore, decide_true, if_true] at hties
      obtain rfl : y = z := List.head_eq_of_cons_eq hties
      rw [ih ⟨.refl ys, hy.descending.of_cons, fun _ => rfl⟩ (hy.of_cons hz)]

/-! ### Thinning out a ranking -/

/-- Leaving elements out keeps a ranking. -/
theorem Ranked.filter (h : Ranked score xs ys) (p : α → Bool) :
    Ranked score (xs.filter p) (ys.filter p) where
  perm := h.perm.filter p
  descending := h.descending.filter p
  ties n := by
    rw [List.filter_comm, List.filter_comm _ p xs, h.ties n]

/-! ### Expanding a ranking -/

/-- Where all of a block is left out or none of it, blocks may be left out instead. -/
theorem filter_flatMap_eq {f : α → List β} {p : β → Bool} {keep : α → Bool}
    (h : ∀ a, ∀ b ∈ f a, p b = keep a) (xs : List α) :
    (xs.flatMap f).filter p = (xs.filter keep).flatMap f := by
  induction xs with
  | nil => rfl
  | cons a xs ih =>
    have hblock : (f a).filter p = if keep a then f a else [] := by
      split
      next ha => exact List.filter_eq_self.mpr fun b hb => by rw [h a b hb, ha]
      next ha => exact List.filter_eq_nil_iff.mpr fun b hb => by rwa [h a b hb]
    rw [List.flatMap_cons, List.filter_append, hblock, ih, List.filter_cons]
    split
    · rw [List.flatMap_cons]
    · rfl

/-- Expanding keeps a ranking, when all that an element is expanded into has its score. -/
theorem Ranked.flatMap {score' : β → Nat} {f : α → List β} (h : Ranked score xs ys)
    (hf : ∀ a, ∀ b ∈ f a, score' b = score a) :
    Ranked score' (xs.flatMap f) (ys.flatMap f) := by
  refine ⟨h.perm.flatMap_right f, ?_, ?_⟩
  · rw [List.pairwise_flatMap]
    constructor
    · intro a _
      refine List.pairwise_of_forall_mem_list fun b hb b' hb' => ?_
      exact Nat.le_of_eq ((hf a b' hb').trans (hf a b hb).symm)
    · refine h.descending.imp ?_
      intro a a' haa' b hb b' hb'
      rwa [hf a b hb, hf a' b' hb']
  · intro n
    -- only the elements of score `n` expand into something of score `n`
    have hblocks : ∀ a, ∀ b ∈ f a, decide (score' b = n) = decide (score a = n) :=
      fun a b hb => by rw [hf a b hb]
    rw [filter_flatMap_eq hblocks, filter_flatMap_eq hblocks, h.ties n]

/-! ### Hits -/

theorem ranked_rank (hits : List Hit) : Ranked (·.relevance) hits (rank hits) :=
  ranked_mergeSort _ hits

/-- It makes no difference whether hits are left out before or after the ranking. -/
theorem rank_filter (hits : List Hit) (p : Hit → Bool) :
    rank (hits.filter p) = (rank hits).filter p :=
  (ranked_rank _).unique ((ranked_rank hits).filter p)

end EmojiCatalog
