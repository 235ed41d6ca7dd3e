import EmojiCatalog.CommandLine.Perform
import EmojiCatalog.Proofs.Processor.Solo
/-!
What the stream command prints.

The command takes one record after the other from the only run of its processor, so it is known
which records it gets, however fast the producer is (`Processor.Reads`).  It looks at its limit
after each record that it has printed, and never before the first: under a limit of zero one record
is printed all the same (`stream_prints_first_records`).
-/

namespace EmojiCatalog.CommandLine

open Json
open Processor (Reads)

/-! ### Taking records -/

/-- How many records may be printed under a limit when some have been printed: at least one more. -/
def allowance (total printed : Nat) : Option Nat → Nat
  | some limit => max 1 (limit - printed)
  | none => total

section Allowance

variable {α : Type} {x : α} {xs : List α} {total printed : Nat} {limit : Option Nat}

/-- When the limit is reached with the first record, only this one is allowed. -/
theorem take_allowance_of_reaches (h : reaches (printed + 1) limit = true) :
    (x :: xs).take (allowance total printed limit) = [x] := by
  cases limit with
  | none => cases h
  | some limit =>
    have hle : limit ≤ printed + 1 := of_decide_eq_true h
    have hone : allowance total printed (some limit) = 1 := by
      rw [allowance]
      omega
    rw [hone]
    rfl

/-- Otherwise the first record is allowed, and then what is allowed after it. -/
theorem take_allowance_cons (hlength : xs.length < total)
    (h : reaches (printed + 1) limit = false) :
    (x :: xs).take (allowance total printed limit)
      = x :: xs.take (allowance total (printed + 1) limit) := by
  cases limit with
  | none =>
    rw [allowance, allowance, List.take_of_length_le hlength,
      List.take_of_length_le (Nat.le_of_lt hlength)]
  | some limit =>
    have hlt : ¬limit ≤ printed + 1 := of_decide_eq_false h
    have hmore : allowance total printed (some limit)
        = allowance total (printed + 1) (some limit) + 1 := by
      rw [allowance, allowance]
      omega
    rw [hmore, List.take_succ_cons]

end Allowance

section Step

variable {p : Processor String} {i n printed : Nat} {limit : Option Nat} {token : Token}
variable {pace : List Nat} {x : Record String}

theorem takeRecords_of_none (h : (p.nextAt pace i).1 = none) :
    takeRecords limit token (n + 1) printed pace p i = ([], none, (p.nextAt pace i).2.2) := by
  rcases hnext : p.nextAt pace i with ⟨a, pace', q⟩
  rw [hnext] at h
  obtain rfl : a = none := h
  simp only [takeRecords, hnext]

theorem takeRecords_of_reaches (h : (p.nextAt pace i).1 = some (.ok x))
    (hlimit : reaches (printed + 1) limit = true) :
    takeRecords limit token (n + 1) printed pace p i
      = ([x], none, (p.nextAt pace i).2.2.cancel token) := by
  rcases hnext : p.nextAt pace i with ⟨a, pace', q⟩
  rw [hnext] at h
  obtain rfl : a = some (.ok x) := h
  simp only [takeRecords, hnext, hlimit, if_true]

theorem takeRecords_of_not_reaches (h : (p.nextAt pace i).1 = some (.ok x))
    (hlimit : reaches (printed + 1) limit = false) :
    let rest := takeRecords limit token n (printed + 1) (p.nextAt pace i).2.1
      (p.nextAt pace i).2.2 i
    takeRecords limit token (n + 1) printed pace p i = (x :: rest.1, rest.2) := by
  rcases hnext : p.nextAt pace i with ⟨a, pace', q⟩
  rw [hnext] at h
  obtain rfl : a = some (.ok x) := h
  simp only [takeRecords, hnext, hlimit, Bool.false_eq_true, if_false]

end Step

section Live

variable {base p : Processor String} {token token' : Token} {k n : Nat}
variable (hquiet : base.IsQuiet) (hlive : base.tokens.isCancelled token = false)
include hquiet hlive

/-- The records that are left are taken as far as the limit allows, at every pace, and no fault
comes up. -/
theorem takeRecords_of_reads (limit : Option Nat) (h : Reads base token p k)
    (hn : base.upcoming.length < k + n) (pace : List Nat) :
    (takeRecords limit token' n k pace p 0).1
        = (base.upcoming.drop k).take (allowance base.upcoming.length k limit) ∧
      (takeRecords limit token' n k pace p 0).2.1 = none := by
  induction n generalizing k p pace with
  | zero =>
    have hk : base.upcoming.length ≤ k := Nat.le_of_lt hn
    rw [List.drop_of_length_le hk, List.take_nil]
    exact ⟨rfl, rfl⟩
  | succ n ih =>
    cases hx : base.upcoming[k]? with
    | none =>
      have hk := List.getElem?_eq_none_iff.mp hx
      obtain ⟨hend, -⟩ := h.nextAt_of_end hquiet hlive hk pace
      rw [takeRecords_of_none hend, List.drop_of_length_le hk, List.take_nil]
      exact ⟨rfl, rfl⟩
    | some x =>
      obtain ⟨hlt, hget⟩ := List.getElem?_eq_some_iff.mp hx
      obtain ⟨hsome, hreads⟩ := h.nextAt hquiet hlive hx pace
      rw [List.drop_eq_getElem_cons hlt, hget]
      cases hlimit : reaches (k + 1) limit with
      | true =>
        rw [takeRecords_of_reaches hsome hlimit, take_allowance_of_reaches hlimit]
        exact ⟨rfl, rfl⟩
      | false =>
        have hlength : (base.upcoming.drop (k + 1)).length < base.upcoming.length := by
          rw [List.length_drop]
          omega
        obtain ⟨hrecords, hfault⟩ := ih hreads (by omega) (p.nextAt pace 0).2.1
        rw [takeRecords_of_not_reaches hsome hlimit, take_allowance_cons hlength hlimit]
        exact ⟨congrArg (x :: ·) hrecords, hfault⟩

end Live

/-- From the start of a run as many records are taken as the limit allows. -/
theorem takeRecords_startRun (p : Processor String) (limit : Option Nat) (hruns : p.runs = [])
    (hquiet : (p.startRun Tokens.root).IsQuiet)
    (hlive : (p.startRun Tokens.root).tokens.isCancelled p.tokens.fresh = false)
    (pace : List Nat) :
    let out := takeRecords limit p.tokens.fresh (p.catalog.entries.length + 2) 0 pace
      (p.startRun Tokens.root) 0
    out.1 = (p.startRun Tokens.root).upcoming.take
        (allowance (p.startRun Tokens.root).upcoming.length 0 limit) ∧
      out.2.1 = none := by
  have hlength : (p.startRun Tokens.root).upcoming.length = p.catalog.entries.length :=
    length_recordsOf
  exact takeRecords_of_reads hquiet hlive limit (p.reads_startRun Tokens.root hruns) (by omega) pace

/-! ### The command -/

/-- The records of the built-in catalog, each with the name of its subcategory and with the stamp of
its number. -/
def builtinRecords (r : Readings) : List (Record String) :=
  recordsOf (fun n e => (e.subcategory, r.stamp n)) "StreamPipeline" Catalog.builtin.entries

theorem length_builtinRecords (r : Readings) : (builtinRecords r).length = 130 := by
  rw [builtinRecords, length_recordsOf]
  rfl

theorem upcoming_streamProcessor (r : Readings) :
    ((streamProcessor r).startRun Tokens.root).upcoming = builtinRecords r := by
  have hmake : ((streamProcessor r).startRun Tokens.root).makeFrom
      = fun n e => (e.subcategory, r.stamp n) := by
    funext n e
    show (e.subcategory, r.stamp (0 + n)) = _
    rw [Nat.zero_add]
  rw [Processor.upcoming, hmake]
  rfl

/-- The records that are printed under a limit, none of which meets a fault. -/
theorem streamRecords_eq (limit : Option Nat) (r : Readings) :
    (streamRecords limit r).1 = (builtinRecords r).take (limit.elim 130 (max 1)) ∧
      (streamRecords limit r).2.1 = none := by
  obtain ⟨hrecords, hfault⟩ :=
    takeRecords_startRun (streamProcessor r) limit rfl (fun _ _ => rfl) rfl r.pace
  rw [upcoming_streamProcessor, length_builtinRecords] at hrecords
  have hcount : allowance 130 0 limit = limit.elim 130 (max 1) := by
    cases limit with
    | none => rfl
    | some n => exact congrArg (max 1) (Nat.sub_zero n)
  rw [hcount] at hrecords
  rw [streamRecords]
  exact ⟨hrecords, hfault⟩

theorem unlines_singleton (s : String) : unlines [s] = s ++ "\n" := by
  show "" ++ (s ++ "\n") = s ++ "\n"
  rw [String.empty_append]

/-- The command has printed the lines of some records, reported their number and succeeded. -/
def Performance.Prints (done : Performance) (records : List (Record String)) : Prop :=
  done.output = unlines (records.map recordLine) ∧
    done.notice = toString records.length ++ " records\n" ∧ done.exitCode = 0

/-- Without a fault the command prints what it has taken. -/
theorem prints_performStream {limit : Option Nat} {r : Readings}
    (hfault : (streamRecords limit r).2.1 = none) :
    (performStream limit r).Prints (streamRecords limit r).1 := by
  unfold performStream
  generalize streamRecords limit r = out at hfault ⊢
  obtain ⟨records, fault, p⟩ := out
  obtain rfl : fault = none := hfault
  refine ⟨rfl, ?_, rfl⟩
  show unlines [toString records.length ++ " records"] = _
  rw [unlines_singleton, String.append_assoc]
  rfl

/-- **The stream command prints the first records of the built-in catalog**, of which there are 130,
one line each, reports their number, and succeeds.  Under a limit it prints as many as the limit
says, or all if there are no more; but a limit of zero stands for a limit of one. -/
theorem stream_prints_first_records (limit : Option Nat) (r : Readings) :
    (builtinRecords r).length = 130 ∧
      ((Command.stream limit).perform r).Prints
        ((builtinRecords r).take (limit.elim 130 (max 1))) := by
  obtain ⟨hrecords, hfault⟩ := streamRecords_eq limit r
  refine ⟨length_builtinRecords r, ?_⟩
  show (performStream limit r).Prints _
  rw [← hrecords]
  exact prints_performStream hfault

/-- Under a limit of zero one record is printed and reported. -/
theorem limit_zero_prints_one :
    ((Command.stream (some 0)).perform {}).notice = "1 records\n" ∧
      ¬((Command.stream (some 0)).perform {}).Prints ((builtinRecords {}).take 0) := by
  obtain ⟨hrecords, hfault⟩ := streamRecords_eq (some 0) {}
  have hnotice : ((Command.stream (some 0)).perform {}).notice = "1 records\n" := by
    refine (prints_performStream hfault).2.1.trans ?_
    rw [hrecords, List.length_take, length_builtinRecords]
    rfl
  refine ⟨hnotice, fun h => ?_⟩
  have hzero := h.2.1
  rw [hnotice] at hzero
  exact absurd hzero (by decide)

end EmojiCatalog.CommandLine
