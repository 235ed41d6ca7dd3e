import EmojiCatalog.Proofs.Tally
import Mathlib.Tactic.IntervalCases
/-!
Threads that count in one tally.

Any number of threads count the categories of a list each, and snapshots are taken in between.  One
increment and one snapshot are one step each, so a history is a list of acts, and the lists of acts
are the interleavings.

At every moment the tally is that of a list of the categories counted so far, and these are what the
threads no longer have before them (`Keeps`).  Since the order of a list makes no difference to its
tally, the interleaving is lost when all threads are through, and nothing else is
(`no_increment_is_lost`).  A snapshot is the tally of the categories counted before it, so what a
later one was counted from begins with what an earlier one was.
-/

namespace EmojiCatalog

/-- A tally in which threads count, and what has been seen of it. -/
structure Counting where
  /-- What each thread still has to count, in order. -/
  waiting : List (List String)
  tally : Tally := .empty
  /-- The snapshots taken so far, oldest first. -/
  snapshots : List Tally := []

namespace Counting

/-- What can happen while threads count. -/
inductive Act where
  /-- A thread counts its next category, if it has one. -/
  | count (thread : Nat)
  /-- A snapshot is taken. -/
  | look
  deriving DecidableEq, Repr

/-- Threads about to count the given lists. -/
def start (threads : List (List String)) : Counting where
  waiting := threads

/-- One act. -/
def act (s : Counting) : Act → Counting
  | .count i =>
    match s.waiting[i]? with
    | some (name :: rest) =>
      { s with waiting := s.waiting.set i rest, tally := s.tally.increment name }
    | _ => s
  | .look => { s with snapshots := s.snapshots ++ [s.tally] }

/-- Some acts in order. -/
def after (s : Counting) (acts : List Act) : Counting := acts.foldl act s

variable {s : Counting} {threads : List (List String)} {i : Nat}

/-- A thread counts its next category, or has none left. -/
theorem act_count_cases (s : Counting) (i : Nat) :
    (∃ name rest, s.waiting[i]? = some (name :: rest) ∧ s.act (.count i)
        = { s with waiting := s.waiting.set i rest, tally := s.tally.increment name }) ∨
      s.act (.count i) = s ∧ ∀ names, s.waiting[i]? = some names → names = [] := by
  rw [act]
  split
  next name rest h => exact .inl ⟨name, rest, h, rfl⟩
  next hnone =>
    refine .inr ⟨rfl, fun names hnames => ?_⟩
    cases names with
    | nil => rfl
    | cons name rest => exact absurd hnames (hnone name rest)

/-! ### What is left to count -/

theorem getElem?_waiting_act (s : Counting) (a : Act) (i : Nat) :
    (s.act a).waiting[i]? = (s.waiting[i]?).map (·.drop ([a].count (.count i))) := by
  cases a with
  | look =>
    show s.waiting[i]? = (s.waiting[i]?).map (·.drop 0)
    simp only [List.drop_zero, Option.map_id']
  | count j =>
    obtain ⟨name, rest, hj, hact⟩ | ⟨hact, hnone⟩ := s.act_count_cases j
    · rw [hact]
      by_cases hij : j = i
      · subst hij
        have hlt : j < s.waiting.length := (List.getElem?_eq_some_iff.mp hj).1
        rw [List.getElem?_set_self hlt, hj, List.count_singleton_self]
        rfl
      · have hne : ¬(Act.count j == Act.count i) = true := by simpa using hij
        rw [List.getElem?_set_ne hij, List.count_singleton, if_neg hne]
        simp only [List.drop_zero, Option.map_id']
    · -- a thread with nothing left has nothing left after its act
      rw [hact]
      cases hi : s.waiting[i]? with
      | none => rfl
      | some names =>
        by_cases hij : j = i
        · subst hij
          rw [hnone names hi]
          simp
        · have hne : ¬(Act.count j == Act.count i) = true := by simpa using hij
          rw [List.count_singleton, if_neg hne]
          rfl

/-- A thread has counted as many categories as it has made acts. -/
theorem getElem?_waiting_after (s : Counting) (acts : List Act) (i : Nat) :
    (s.after acts).waiting[i]? = (s.waiting[i]?).map (·.drop (acts.count (.count i))) := by
  induction acts generalizing s with
  | nil =>
    show s.waiting[i]? = (s.waiting[i]?).map (·.drop 0)
    simp only [List.drop_zero, Option.map_id']
  | cons a acts ih =>
    show ((s.act a).after acts).waiting[i]? = _
    rw [ih, getElem?_waiting_act]
    simp only [Option.map_map, Function.comp_def, List.drop_drop, ← Tally.count_cons_eq_add]

/-- Threads that have made enough acts are through. -/
theorem flatten_waiting_eq_nil {acts : List Act}
    (h : ∀ i names, threads[i]? = some names → names.length ≤ acts.count (.count i)) :
    ((start threads).after acts).waiting.flatten = [] := by
  rw [List.flatten_eq_nil_iff]
  intro names hmem
  obtain ⟨i, hi⟩ := List.getElem?_of_mem hmem
  rw [getElem?_waiting_after] at hi
  obtain ⟨all, hall, rfl⟩ := Option.map_eq_some_iff.mp hi
  exact List.drop_eq_nil_of_le (h i all hall)

/-! ### What has been counted -/

/-- Taking an element off one of several lists takes it off all of them together. -/
theorem flatten_set_perm {β : Type} {xss : List (List β)} {x : β} {xs : List β}
    (h : xss[i]? = some (x :: xs)) : xss.flatten.Perm (x :: (xss.set i xs).flatten) := by
  induction xss generalizing i with
  | nil => cases h
  | cons ys xss ih =>
    cases i with
    | zero =>
      cases h
      exact .refl _
    | succ i =>
      rw [List.set_cons_succ, List.flatten_cons, List.flatten_cons]
      exact ((ih h).append_left ys).trans List.perm_middle

/-- `Keeps threads s counted looks`: the threads have counted the categories `counted`, in this
order, and a snapshot was taken behind each of the first `looks` of them. -/
structure Keeps (threads : List (List String)) (s : Counting) (counted : List String)
    (looks : List Nat) : Prop where
  perm : (counted ++ s.waiting.flatten).Perm threads.flatten
  tally_eq : s.tally = .ofNames counted
  snapshots_eq : s.snapshots = looks.map fun n => .ofNames (counted.take n)
  ascending : (looks ++ [counted.length]).Pairwise (· ≤ ·)

variable {counted : List String} {looks : List Nat}

theorem Keeps.le_length (h : Keeps threads s counted looks) {n : Nat} (hn : n ∈ looks) :
    n ≤ counted.length :=
  (List.pairwise_append.mp h.ascending).2.2 n hn _ (List.mem_singleton_self _)

theorem Keeps.start (threads : List (List String)) : Keeps threads (.start threads) [] [] where
  perm := .refl _
  tally_eq := rfl
  snapshots_eq := rfl
  ascending := List.pairwise_singleton _ _

/-- One more category counted leaves the snapshots as they are. -/
theorem Keeps.count (h : Keeps threads s counted looks) {name : String} {rest : List String}
    (hi : s.waiting[i]? = some (name :: rest)) :
    Keeps threads { s with waiting := s.waiting.set i rest, tally := s.tally.increment name }
      (counted ++ [name]) looks := by
  constructor
  case perm =>
    rw [List.append_assoc, List.singleton_append]
    exact ((flatten_set_perm hi).symm.append_left counted).trans h.perm
  case tally_eq =>
    show s.tally.increment name = _
    rw [h.tally_eq, Tally.ofNames, Tally.ofNames, Tally.incrementAll_append]
    rfl
  case snapshots_eq =>
    show s.snapshots = _
    rw [h.snapshots_eq]
    refine List.map_congr_left fun n hn => ?_
    rw [List.take_append_of_le_length (h.le_length hn)]
  case ascending =>
    obtain ⟨hlooks, -, -⟩ := List.pairwise_append.mp h.ascending
    refine List.pairwise_append.mpr ⟨hlooks, List.pairwise_singleton _ _, fun n hn m hm => ?_⟩
    rw [List.mem_singleton.mp hm, List.length_append]
    exact Nat.le_add_right_of_le (h.le_length hn)

theorem Keeps.look (h : Keeps threads s counted looks) :
    Keeps threads { s with snapshots := s.snapshots ++ [s.tally] } counted
      (looks ++ [counted.length]) := by
  constructor
  case perm => exact h.perm
  case tally_eq => exact h.tally_eq
  case snapshots_eq =>
    show s.snapshots ++ [s.tally] = _
    rw [h.snapshots_eq, h.tally_eq, List.map_append, List.map_singleton, List.take_length]
  case ascending =>
    refine List.pairwise_append.mpr ⟨h.ascending, List.pairwise_singleton _ _, fun n hn m hm => ?_⟩
    rw [List.mem_singleton.mp hm]
    rcases List.mem_append.mp hn with hn | hn
    · exact h.le_length hn
    · exact Nat.le_of_eq (List.mem_singleton.mp hn)

theorem Keeps.act (h : Keeps threads s counted looks) (a : Act) :
    ∃ counted looks, Keeps threads (s.act a) counted looks := by
  cases a with
  | look => exact ⟨_, _, h.look⟩
  | count i =>
    obtain ⟨name, rest, hi, hact⟩ | ⟨hact, -⟩ := s.act_count_cases i
    · rw [hact]
      exact ⟨_, _, h.count hi⟩
    · rw [hact]
      exact ⟨_, _, h⟩

theorem Keeps.after (h : Keeps threads s counted looks) (acts : List Act) :
    ∃ counted looks, Keeps threads (s.after acts) counted looks := by
  induction acts generalizing s counted looks with
  | nil => exact ⟨_, _, h⟩
  | cons a acts ih =>
    obtain ⟨_, _, hact⟩ := h.act a
    exact ih hact

/-! ### Snapshots -/

/-- The snapshots and the tally as it stands are those of ever longer lists. -/
theorem Keeps.snapshots_concat (h : Keeps threads s counted looks) :
    s.snapshots ++ [s.tally]
      = (looks ++ [counted.length]).map fun n => .ofNames (counted.take n) := by
  rw [h.snapshots_eq, h.tally_eq, List.map_append, List.map_singleton, List.take_length]

theorem isWithin_ofNames_take {m n : Nat} (names : List String) (h : m ≤ n) :
    (Tally.ofNames (names.take m)).IsWithin (.ofNames (names.take n)) := by
  obtain ⟨later, hlater⟩ : names.take m <+: names.take n := List.take_prefix_take_left h
  rw [← hlater]
  exact Tally.isWithin_ofNames_append _ later

/-- A later snapshot has at least the counts of an earlier one. -/
theorem Keeps.pairwise_isWithin (h : Keeps threads s counted looks) :
    (s.snapshots ++ [s.tally]).Pairwise Tally.IsWithin := by
  rw [h.snapshots_concat, List.pairwise_map]
  exact h.ascending.imp fun hle => isWithin_ofNames_take counted hle

theorem length_snapshots_act (s : Counting) (a : Act) :
    (s.act a).snapshots.length = s.snapshots.length + [a].count .look := by
  cases a with
  | look => exact List.length_append
  | count i =>
    obtain ⟨name, rest, -, hact⟩ | ⟨hact, -⟩ := s.act_count_cases i
    · rw [hact]
      rfl
    · rw [hact]
      rfl

theorem length_snapshots_after (s : Counting) (acts : List Act) :
    (s.after acts).snapshots.length = s.snapshots.length + acts.count .look := by
  induction acts generalizing s with
  | nil => rfl
  | cons a acts ih =>
    show ((s.act a).after acts).snapshots.length = _
    rw [ih, length_snapshots_act, Nat.add_assoc, ← Tally.count_cons_eq_add]

end Counting

/-! ### The result -/

/-- **No increment is lost, and their order makes no difference.**

* Once every thread has made an act for each of its categories, the tally is that of all their
  lists, whatever the interleaving: a category has the number of times that it stands in them, no
  other is listed, and the total is the number of all increments.
* At every moment, through or not, the tally and all snapshots taken before it verify, and no count
  and no total of one of them is above that of a later one. -/
theorem no_increment_is_lost (threads : List (List String)) (acts : List Counting.Act) :
    let s := (Counting.start threads).after acts
    let times (name : String) : Nat := sumOf (·.count name) threads
    ((∀ i names, threads[i]? = some names → names.length ≤ acts.count (.count i)) →
      s.tally = .ofNames threads.flatten ∧
      (∀ name, s.tally.count name = times name) ∧
      (∀ name, name ∈ s.tally.counts.keys ↔ 0 < times name) ∧
      s.tally.total = sumOf (·.length) threads) ∧
    s.snapshots.length = acts.count .look ∧
    (∀ t ∈ s.snapshots ++ [s.tally], t.verify = .ok ()) ∧
    (s.snapshots ++ [s.tally]).Pairwise fun earlier later =>
      (∀ name, earlier.count name ≤ later.count name) ∧ earlier.total ≤ later.total := by
  intro s times
  obtain ⟨counted, looks, h⟩ := (Counting.Keeps.start threads).after acts
  refine ⟨fun hthrough => ?_, ?_, ?_, h.pairwise_isWithin⟩
  · have hperm : counted.Perm threads.flatten := by
      have hperm := h.perm
      rwa [Counting.flatten_waiting_eq_nil hthrough, List.append_nil] at hperm
    have htally : s.tally = .ofNames threads.flatten := h.tally_eq.trans (Tally.ofNames_perm hperm)
    have htimes : ∀ name, (Tally.ofNames threads.flatten).count name = times name := by
      intro name
      rw [Tally.count_ofNames, ← List.flatMap_id, List.count, countP_flatMap]
      rfl
    refine ⟨htally, ?_, ?_, ?_⟩
    · intro name
      rw [htally, htimes]
    · intro name
      rw [htally, Tally.mem_keys_ofNames, htimes]
    · rw [htally, Tally.total_ofNames, ← List.flatMap_id, length_flatMap]
      rfl
  · exact (Counting.length_snapshots_after _ acts).trans (Nat.zero_add _)
  · intro t ht
    rw [h.snapshots_concat] at ht
    obtain ⟨n, -, rfl⟩ := List.mem_map.mp ht
    exact Tally.verify_ofNames _

/-- Two threads count one category each way round, a third has nothing to count. -/
theorem no_increment_is_lost_twoThreads :
    let threads := [["faces", "nature"], ["faces"], []]
    let acts : List Counting.Act := [.look, .count 1, .count 0, .look, .count 2, .count 0]
    let s := (Counting.start threads).after acts
    (∀ i names, threads[i]? = some names → names.length ≤ acts.count (.count i)) ∧
      s.tally.count "faces" = 2 ∧ s.tally.count "nature" = 1 ∧ s.tally.total = 3 ∧
      "objects" ∉ s.tally.counts.keys ∧ s.snapshots.length = 2 := by
  intro threads acts s
  have hthrough : ∀ i names, threads[i]? = some names → names.length ≤ acts.count (.count i) := by
    intro i names hi
    have hlt : i < 3 := (List.getElem?_eq_some_iff.mp hi).1
    interval_cases i <;> cases hi <;> decide
  obtain ⟨hall, hlooks, -, -⟩ := no_increment_is_lost threads acts
  obtain ⟨-, htimes, hkeys, htotal⟩ := hall hthrough
  exact ⟨hthrough, htimes "faces", htimes "nature", htotal,
    fun hkey => absurd ((hkeys "objects").mp hkey) (by decide), hlooks⟩

end EmojiCatalog
