import EmojiCatalog.Proofs.Catalog.Built
import EmojiCatalog.Proofs.Processor.History
/-!
What the statistics say.

In every history of a processor the statistics are those of its runs: each run has counted the
categories of its first entries, as many as its producer has come to, and the statistics have
counted all of these and nothing else (`statistics_account_for_runs`).  A run counts an entry before
it sends the record, so never more records of a category are delivered than are counted.

Searches and pools of workers count nothing.  A run that has completed has counted every entry, and
then the statistics are a multiple of the sizes of the categories.
-/

namespace EmojiCatalog

open Run (Trace Sound)

variable {α : Type} {c : Catalog} {config : Config}

/-! ### One run -/

section Reached

variable {t : Trace α}

theorem Run.Trace.Reached.exists_sound (h : t.Reached c config) :
    ∃ make, Sound make config.producerName c.entries t := by
  obtain ⟨token, make, acts, -, -, rfl⟩ := h
  exact ⟨make, (Sound.start make c config token).after acts⟩

theorem category_recordsOf (make : Nat → Entry → α × Stamp) (producedBy : String)
    (entries : List Entry) :
    (recordsOf make producedBy entries).map (·.category) = entries.map (·.category) := by
  apply List.ext_getElem?
  intro n
  rw [recordsOf, List.getElem?_map, List.getElem?_mapIdx, Option.map_map, List.getElem?_map]
  rfl

/-- The categories of the first `n` entries, counted by name. -/
def countedUnder (c : Catalog) (name : String) (n : Nat) : Nat :=
  (c.entries.take n).countP (·.category == name)

/-- A run has counted the categories of its first entries. -/
theorem Run.Trace.Reached.countP_counts (h : t.Reached c config) (name : String) :
    t.counts.countP (· == name) = countedUnder c name t.run.counted := by
  obtain ⟨make, hsound⟩ := h.exists_sound
  rw [hsound.progress.counts_eq, List.countP_map]
  rfl

theorem Run.Trace.Reached.length_counts (h : t.Reached c config) :
    t.counts.length = t.run.counted := by
  obtain ⟨make, hsound⟩ := h.exists_sound
  exact hsound.progress.length_counts

/-- Every record taken was counted before. -/
theorem Run.Trace.Reached.countP_taken_le (h : t.Reached c config) (name : String) :
    t.taken.countP (·.category == name) ≤ t.counts.countP (· == name) := by
  obtain ⟨make, hsound⟩ := h.exists_sound
  have hpre : t.taken.map (·.category) <+: (c.entries.map (·.category)).take t.run.emitted := by
    have htaken := hsound.conserved.taken_isPrefix.map (·.category)
    rw [List.map_take, category_recordsOf] at htaken
    exact htaken
  -- an entry is counted before its record is sent
  have hcounted : t.run.emitted ≤ t.run.counted := hsound.progress.counted_within.1
  have hcounts : t.counts = (c.entries.map (·.category)).take t.run.counted := by
    rw [hsound.progress.counts_eq, List.map_take]
  calc t.taken.countP (·.category == name)
    _ = (t.taken.map (·.category)).countP (· == name) := by
      rw [List.countP_map]
      rfl
    _ ≤ ((c.entries.map (·.category)).take t.run.emitted).countP (· == name) :=
      hpre.sublist.countP_le
    _ ≤ t.counts.countP (· == name) := by
      rw [hcounts]
      exact (List.take_prefix_take_left hcounted).sublist.countP_le

/-- A run that has completed has counted every entry. -/
theorem Run.Trace.Reached.counted_of_completed (h : t.Reached c config)
    (hs : t.run.stage = .finished .completed) : t.run.counted = c.entries.length := by
  obtain ⟨make, hsound⟩ := h.exists_sound
  rw [hsound.progress.counted_eq, hs, hsound.progress.completed hs]
  rfl

end Reached

/-! ### All runs -/

namespace Chronicle.Accounts

variable {ch : Chronicle α} {ts : List (Trace α)}

theorem total_eq (h : Accounts c config ch ts) :
    ch.processor.tally.total = sumOf (·.counted) ch.processor.runs := by
  obtain ⟨names, htally, hperm⟩ := h.tally_eq
  rw [htally, Tally.total_ofNames, hperm.length_eq, length_flatMap, h.follows.runs_eq, sumOf_map]
  exact sumOf_congr fun t ht => (h.follows.reached t ht).length_counts

theorem count_eq (h : Accounts c config ch ts) (name : String) :
    ch.processor.tally.count name
      = sumOf (fun r => countedUnder c name r.counted) ch.processor.runs := by
  obtain ⟨names, htally, hperm⟩ := h.tally_eq
  rw [htally, Tally.count_ofNames, List.count, hperm.countP_eq, countP_flatMap,
    h.follows.runs_eq, sumOf_map]
  exact sumOf_congr fun t ht => (h.follows.reached t ht).countP_counts name

theorem countP_delivered_le (h : Accounts c config ch ts) (name : String) :
    ch.delivered.countP (·.category == name) ≤ ch.processor.tally.count name := by
  obtain ⟨names, htally, hperm⟩ := h.tally_eq
  rw [htally, Tally.count_ofNames, List.count, hperm.countP_eq, h.delivered_perm.countP_eq,
    countP_flatMap, countP_flatMap]
  exact sumOf_le_sumOf fun t ht => (h.follows.reached t ht).countP_taken_le name

/-- When all runs have completed, each has counted every item of a category. -/
theorem count_of_completed {rows : List Row} (h : Accounts c config ch ts)
    (hc : Catalog.build rows = .ok c) {category : Category} (hmem : category ∈ c.categories)
    (hcompleted : ∀ r ∈ ch.processor.runs, r.stage = .finished .completed) :
    ch.processor.tally.count category.name = ch.processor.runs.length * category.itemCount := by
  have hone : ∀ r ∈ ch.processor.runs,
      countedUnder c category.name r.counted = category.itemCount := by
    intro r hr
    have hs := hcompleted r hr
    rw [h.follows.runs_eq] at hr
    obtain ⟨t, ht, rfl⟩ := List.mem_map.mp hr
    rw [countedUnder, (h.follows.reached t ht).counted_of_completed hs, List.take_length]
    exact Catalog.countP_entries_of_build hc hmem
  calc ch.processor.tally.count category.name
    _ = sumOf (fun r => countedUnder c category.name r.counted) ch.processor.runs :=
      h.count_eq category.name
    _ = sumOf (fun _ => category.itemCount) ch.processor.runs := sumOf_congr hone
    _ = ch.processor.runs.length * category.itemCount := sumOf_const _ _

end Chronicle.Accounts

/-- **The statistics account exactly for the work of the producers**, after every history of a
processor.

* The total is the number of entries that all runs have counted; the count of a category is the
  number of those under its name, and a category is listed exactly if that number is positive.
* The statistics verify.
* No more records of a category have been delivered than were counted.
* Searches and pools leave the statistics as they are.
* When all runs have completed, the count of a category is the number of runs times the number of
  its items. -/
theorem statistics_account_for_runs {rows : List Row} (hc : Catalog.build rows = .ok c)
    (config : Config) (payload : Payload α) (metrics : Metrics) (deeds : List Deed)
    (now : Instant) :
    let ch := (Chronicle.start c config payload metrics).after deeds
    let p := ch.processor
    let tally := (p.stats now).1.tally
    tally.total = sumOf (·.counted) p.runs ∧
    (∀ name,
      tally.count name
        = sumOf (fun r => (c.entries.take r.counted).countP (·.category == name)) p.runs ∧
      (name ∈ tally.counts.keys ↔ 0 < tally.count name) ∧
      ch.delivered.countP (·.category == name) ≤ tally.count name) ∧
    tally.verify = .ok () ∧
    (∀ q, ((p.search q).2.stats now).1.tally = tally) ∧
    (∀ plan workerCount queries cancelled,
      ((p.runPlan plan workerCount queries cancelled).2.stats now).1.tally = tally) ∧
    ((∀ r ∈ p.runs, r.stage = .finished .completed) → ∀ category ∈ c.categories,
      tally.count category.name = p.runs.length * category.itemCount) := by
  intro ch p tally
  obtain ⟨ts, haccounts⟩ := (Chronicle.Accounts.start c config payload metrics).after deeds
  obtain ⟨names, htally, -⟩ := haccounts.tally_eq
  have hnames : tally = .ofNames names := htally
  refine ⟨haccounts.total_eq, ?_, ?_, fun q => rfl, fun plan workerCount queries cancelled => rfl,
    ?_⟩
  · intro name
    refine ⟨haccounts.count_eq name, ?_, haccounts.countP_delivered_le name⟩
    rw [hnames]
    exact Tally.mem_keys_ofNames names name
  · rw [hnames]
    exact Tally.verify_ofNames names
  · intro hcompleted category hmem
    exact haccounts.count_of_completed hc hmem hcompleted

/-- A run that is cancelled while it is held up with its second record, and a search. -/
def cutShortDeeds : List Deed :=
  .start Tokens.root :: List.replicate 9 (.step 0)
    ++ [.search { text := "happy" }, .cancel Tokens.root, .step 0, .serve 0 .tryReceive]

/-- Such a history over two items. -/
def cutShort : Chronicle String :=
  (Chronicle.start Catalog.twoFaces { batchSize := 0 } .subcategory {}).after cutShortDeeds

theorem statistics_account_for_runs_cutShort :
    cutShort.processor.runs.map (·.counted) = [2] ∧ cutShort.delivered.length = 1 ∧
      (cutShort.processor.stats .epoch).1.tally.total = 2 ∧
      cutShort.delivered.countP (·.category == "faces")
        ≤ (cutShort.processor.stats .epoch).1.tally.count "faces" := by
  have hcounted : cutShort.processor.runs.map (·.counted) = [2] := by decide
  obtain ⟨htotal, hcounts, -⟩ := statistics_account_for_runs Catalog.build_twoFacesRows
    { batchSize := 0 } .subcategory {} cutShortDeeds .epoch
  refine ⟨hcounted, by decide, ?_, (hcounts "faces").2.2⟩
  calc (cutShort.processor.stats .epoch).1.tally.total
    _ = sumOf (·.counted) cutShort.processor.runs := htotal
    _ = sumOf id (cutShort.processor.runs.map (·.counted)) := (sumOf_map id _ _).symm
    _ = 2 := by rw [hcounted]; rfl

end EmojiCatalog
