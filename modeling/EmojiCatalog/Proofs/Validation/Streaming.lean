import EmojiCatalog.Proofs.Processor.Solo
import EmojiCatalog.Validation
/-!
The stream check.

The check takes record after record from the only run of its processor, and a record carries the
item and the category of its entry.  So as long as nothing is cancelled the check finds what is
wrong with the first entry that has a flaw, or else comes to the end of the run
(`takeAll_of_reads`).

All of this holds at every pace of the producer.

Whatever is cancelled, the processor has only counted some categories in the end.  If the check has
found no fault it has come to the end of a run that completed, and then these are the categories of
all entries (`takeAll_of_solo`, `counts_checkStream`).
-/

namespace EmojiCatalog

open Run (okAnswers)

/-! ### Counting some categories -/

namespace Processor

variable {α : Type} {p q r base : Processor α} {token : Token} {t : Run.Trace α}
variable {xs ys : List String} {j : Nat}

/-- The processor has counted some categories, and its settings are the same. -/
structure Counts (p : Processor α) (names : List String) (q : Processor α) : Prop where
  settings_eq : q.settings = p.settings
  tally_eq : q.tally = p.tally.incrementAll names

theorem Counts.refl (p : Processor α) : Counts p [] p := ⟨rfl, rfl⟩

theorem Counts.trans (h : Counts p xs q) (h' : Counts q ys r) : Counts p (xs ++ ys) r where
  settings_eq := h'.settings_eq.trans h.settings_eq
  tally_eq := by rw [h'.tally_eq, h.tally_eq, Tally.incrementAll_append]

/-- The statistics of some names and of those that are counted then. -/
theorem Counts.tally_ofNames (h : Counts p ys q) (hp : p.tally = .ofNames xs) :
    q.tally = .ofNames (xs ++ ys) := by
  rw [h.tally_eq, hp, Tally.ofNames, Tally.ofNames, Tally.incrementAll_append]

theorem counts_settleWithin (n : Nat) (p : Processor α) :
    ∃ names, Counts p names (settleWithin n p) := by
  induction n generalizing p with
  | zero => exact ⟨[], .refl p⟩
  | succ n ih =>
    unfold settleWithin
    split
    next q hq =>
      obtain ⟨j, hj⟩ := exists_of_stepAny hq
      obtain ⟨_, m, -, -, -, hsettings, htally, -⟩ := exists_of_stepRun hj
      obtain ⟨names, hrest⟩ := ih q
      exact ⟨m.effect.counts ++ names, (Counts.mk hsettings htally).trans hrest⟩
    next => exact ⟨[], .refl p⟩

theorem settleWithin_of_stepAny_eq_none (h : p.stepAny = none) (n : Nat) :
    settleWithin n p = p := by
  cases n with
  | zero => rfl
  | succ n => rw [settleWithin, h]

/-- Once the only run has completed, dropping its consumer sets nothing going. -/
theorem Solo.settle_dropRun (h : Solo base token p t) (hs : t.run.stage = .finished .completed) :
    (p.dropRun 0).settle = p.dropRun 0 := by
  have hruns : (p.dropRun 0).runs = [t.run.drop] := by
    show p.runs.modify 0 Run.drop = [t.run.drop]
    rw [h.runs_eq]
    rfl
  have hfinished : t.run.drop.isFinished = true := Run.isFinished_iff.mpr ⟨_, hs⟩
  have hrest : (p.dropRun 0).stepAny = none := by
    rw [stepAny, hruns, List.findSome?_eq_none_iff]
    intro j hj
    obtain rfl : j = 0 := Nat.lt_one_iff.mp (List.mem_range.mp hj)
    exact (stepRun_eq_none_iff (by rw [hruns]; rfl)).mpr (.inl hfinished)
  exact settleWithin_of_stepAny_eq_none hrest _

theorem isCancelled_settleWithin {r : Run α} (h : p.isCancelled r = true) (n : Nat) :
    (settleWithin n p).isCancelled r = true := by
  induction n generalizing p with
  | zero => exact h
  | succ n ih =>
    unfold settleWithin
    split
    next q hq =>
      obtain ⟨j, hj⟩ := exists_of_stepAny hq
      obtain ⟨_, _, -, -, -, -, -, hmarks⟩ := exists_of_stepRun hj
      exact ih (hmarks r h)
    next => exact h

/-- A call that begins under a cancelled token meets the cancellation, at every pace. -/
theorem Solo.nextAt_of_cancelled (h : Solo base token p t) (hidle : t.run.phase = .idle)
    (hdone : t.run.isDone = false) (hc : p.isCancelled t.run = true) (pace : List Nat) :
    (p.nextAt pace 0).1 = some (.error .cancelled) := by
  cases pace with
  | nil =>
    have hcall := h.mirrors.withRun_eq Run.next
    rw [h.mirrors.cancelled_eq, hc, Run.next_of_cancelled hdone] at hcall
    rw [nextAt, next, hcall]
  | cons steps pace =>
    -- the producer may go on before the call begins, but not so as to take the cancellation back
    obtain ⟨u, hu, hdown, -⟩ := tracks_solo.settleWithin h steps
    have hidle' : u.run.phase = .idle := (congrArg (·.2.1) hdown).trans hidle
    have hdone' : u.run.isDone = false := (congrArg (·.2.2.1) hdown).trans hdone
    have hc' : (settleWithin steps p).isCancelled u.run = true := by
      have htoken : u.run.token = t.run.token := hu.token_eq.trans h.token_eq.symm
      rw [isCancelled, htoken]
      exact isCancelled_settleWithin hc steps
    have hcall := hu.mirrors.withRun_eq Run.consume
    rw [hu.mirrors.cancelled_eq, hc', Run.consume, hidle', Run.begin_of_cancelled hdone'] at hcall
    rw [nextAt, callAt_cons_of_some pace hcall]

end Processor

/-! ### Flaws -/

/-- What the check finds wrong with the record of an entry. -/
def Entry.flaw? (e : Entry) : Option String :=
  if e.item = "" then some "missing item in processed record"
  else if e.category = "" then some "missing category in processed record"
  else none

namespace Validation

open Processor (Solo Reads Counts)

variable {α : Type} {base p : Processor α} {token : Token} {t : Run.Trace α}
variable {n k processed : Nat}

/-- What is wrong with a record is what is wrong with its entry: an item that is not empty has a
length. -/
theorem flaw?_recordAt (make : Nat → Entry → α × Stamp) (producedBy : String) (n : Nat)
    (e : Entry) : flaw? (recordAt make producedBy n e) = e.flaw? := by
  show (if e.item.isEmpty then _ else if e.category.isEmpty then _
    else if e.item.length = 0 then _ else _) = e.flaw?
  simp only [String.isEmpty_iff, Entry.flaw?]
  by_cases hitem : e.item = ""
  · rw [if_pos hitem, if_pos hitem]
  · have hlength : e.item.length ≠ 0 := fun h => hitem (String.length_eq_zero_iff.mp h)
    rw [if_neg hitem, if_neg hitem, if_neg hlength]

/-! ### Taking the records -/

section Step

variable {q : Processor α} {i : Nat} {pace : List Nat} {r : Record α}

theorem takeAll_of_none (h : (q.nextAt pace i).1 = none) :
    takeAll (n + 1) processed pace q i = (.ok processed, (q.nextAt pace i).2.2) := by
  rcases hnext : q.nextAt pace i with ⟨a, pace', q'⟩
  rw [hnext] at h
  obtain rfl : a = none := h
  simp only [takeAll, hnext]

theorem takeAll_of_error {f : Fault} (h : (q.nextAt pace i).1 = some (.error f)) :
    takeAll (n + 1) processed pace q i = (.error (.processor f), (q.nextAt pace i).2.2) := by
  rcases hnext : q.nextAt pace i with ⟨a, pace', q'⟩
  rw [hnext] at h
  obtain rfl : a = some (.error f) := h
  simp only [takeAll, hnext]

theorem takeAll_of_flaw {reason : String} (h : (q.nextAt pace i).1 = some (.ok r))
    (hflaw : flaw? r = some reason) :
    takeAll (n + 1) processed pace q i = (.error (.failed reason), (q.nextAt pace i).2.2) := by
  rcases hnext : q.nextAt pace i with ⟨a, pace', q'⟩
  rw [hnext] at h
  obtain rfl : a = some (.ok r) := h
  simp only [takeAll, hnext, hflaw]

theorem takeAll_of_sound (h : (q.nextAt pace i).1 = some (.ok r)) (hflaw : flaw? r = none) :
    takeAll (n + 1) processed pace q i
      = takeAll n (processed + 1) (q.nextAt pace i).2.1
        ((q.nextAt pace i).2.2.note (streamEvents (processed + 1) r)) i := by
  rcases hnext : q.nextAt pace i with ⟨a, pace', q'⟩
  rw [hnext] at h
  obtain rfl : a = some (.ok r) := h
  simp only [takeAll, hnext, hflaw]

end Step

theorem upcoming_getElem? {e : Entry} (he : base.catalog.entries[k]? = some e) :
    base.upcoming[k]? = some (recordAt base.makeFrom base.config.producerName k e) := by
  rw [Processor.upcoming, recordsOf, List.getElem?_mapIdx, he]
  rfl

/-- As long as nothing is cancelled, the check ends at the first entry with a flaw, or when it has
taken the records of all entries, at every pace. -/
theorem takeAll_of_reads (hquiet : base.IsQuiet) (hlive : base.tokens.isCancelled token = false)
    (h : Reads base token p k) (hk : k ≤ base.catalog.entries.length)
    (hn : base.catalog.entries.length < k + n) (pace : List Nat) :
    let out := takeAll n k pace p 0
    let first := (base.catalog.entries.drop k).findSome? Entry.flaw?
    (∀ reason, first = some reason → out.1 = .error (.failed reason)) ∧
      (first = none → out.1 = .ok base.catalog.entries.length ∧ out.2.tokens = base.tokens) := by
  have hlength : base.upcoming.length = base.catalog.entries.length := length_recordsOf
  induction n generalizing k p pace with
  | zero => omega
  | succ n ih =>
    intro out first
    cases he : base.catalog.entries[k]? with
    | none =>
      obtain rfl : k = base.catalog.entries.length :=
        Nat.le_antisymm hk (List.getElem?_eq_none_iff.mp he)
      obtain ⟨hend, htokens⟩ := h.nextAt_of_end hquiet hlive (Nat.le_of_eq hlength) pace
      have hout : out = (.ok base.catalog.entries.length, (p.nextAt pace 0).2.2) :=
        takeAll_of_none hend
      have hfirst : first = none := by
        show (base.catalog.entries.drop _).findSome? _ = none
        rw [List.drop_length]
        rfl
      rw [hout, hfirst]
      exact ⟨fun _ h => (by cases h), fun _ => ⟨rfl, htokens⟩⟩
    | some e =>
      obtain ⟨hsome, hreads⟩ := h.nextAt hquiet hlive (upcoming_getElem? he) pace
      obtain ⟨hlt, he⟩ := List.getElem?_eq_some_iff.mp he
      have hflaw := flaw?_recordAt base.makeFrom base.config.producerName k e
      have hfirst : first = (e :: base.catalog.entries.drop (k + 1)).findSome? Entry.flaw? := by
        show (base.catalog.entries.drop k).findSome? _ = _
        rw [List.drop_eq_getElem_cons hlt, he]
      rw [List.findSome?_cons] at hfirst
      cases hf : e.flaw? with
      | some reason =>
        have hout : out = (.error (.failed reason), (p.nextAt pace 0).2.2) :=
          takeAll_of_flaw hsome (hflaw.trans hf)
        rw [hf] at hfirst
        rw [hout, hfirst]
        exact ⟨fun _ h => (by rw [Option.some.inj h]), fun h => (by cases h)⟩
      | none =>
        have hout : out = takeAll n (k + 1) (p.nextAt pace 0).2.1
            ((p.nextAt pace 0).2.2.note (streamEvents (k + 1)
              (recordAt base.makeFrom base.config.producerName k e))) 0 :=
          takeAll_of_sound hsome (hflaw.trans hf)
        rw [hf] at hfirst
        rw [hout, hfirst]
        exact ih (hreads.note _) hlt (by omega) _

/-- Whatever is cancelled, the check keeps to the history of its run, and if it finds no fault this
has completed. -/
theorem takeAll_of_solo (records : List (Record α)) (h : Solo base token p t)
    (hidle : t.run.phase = .idle) (hanswers : t.answers = okAnswers records)
    (hk : records.length ≤ base.catalog.entries.length)
    (hn : base.catalog.entries.length < records.length + n) (pace : List Nat) :
    let out := takeAll n processed pace p 0
    ∃ u, Solo base token out.2 u ∧ ∀ m, out.1 = .ok m → u.run.stage = .finished .completed := by
  induction n generalizing processed p t records pace with
  | zero => omega
  | succ n ih =>
    intro out
    obtain ⟨u, hu, hidle', hanswers', -⟩ := Processor.tracks_solo.nextAt h hidle pace
    rw [hanswers] at hanswers'
    obtain ⟨x, hx, htaken⟩ | ⟨hfault, -⟩ | ⟨hend, -, hstage⟩ := hu.answered.last hu.sound hanswers'
    · cases hf : flaw? x with
      | some reason =>
        have hout : out = (.error (.failed reason), (p.nextAt pace 0).2.2) :=
          takeAll_of_flaw hx hf
        rw [hout]
        exact ⟨u, hu, fun m h => by cases h⟩
      | none =>
        have hout : out = _ := takeAll_of_sound hx hf
        -- no more records are taken than there are entries
        have hle : u.taken.length ≤ base.catalog.entries.length := by
          have hprefix := hu.sound.conserved.taken_isPrefix.trans (List.take_prefix _ _)
          exact Nat.le_trans hprefix.length_le (Nat.le_of_eq length_recordsOf)
        have hsucc : (records ++ [x]).length = records.length + 1 := List.length_append
        rw [htaken] at hle
        rw [hout]
        refine ih (records ++ [x]) (hu.note _) hidle' ?_ hle (by omega) _
        rw [hanswers', hx, Run.okAnswers_append]
        rfl
    · have hout : out = (.error (.processor .cancelled), (p.nextAt pace 0).2.2) :=
        takeAll_of_error hfault
      rw [hout]
      exact ⟨u, hu, fun m h => by cases h⟩
    · have hout : out = (.ok processed, (p.nextAt pace 0).2.2) := takeAll_of_none hend
      rw [hout]
      exact ⟨u, hu, fun _ _ => hstage⟩

end Validation

end EmojiCatalog
