import EmojiCatalog.Proofs.Run.Backpressure
/-!
What a producer notes about its run.

The notes of a run that has ended are one on its start, one on every tenth record sent, and one on
its end (`log_accounts_for_run`).  In between they are the notes on the start and on the records
sent so far; `Noted` says so for every state, and every act preserves it.  The only moves that are
noted are the first one, those that send a record whose number is a multiple of ten, and the last
one.

A progress note names the entry whose record was sent.  That is the entry in hand, and it is found
in the list of all entries at the number of records sent before (`Progress.drop_emitted`).
-/

namespace EmojiCatalog

/-- The message on the end of a run. -/
def Ending.message : Ending → String
  | .completed => "Stream processing completed"
  | .cancelledBeforeEntry => "Stream cancelled"
  | .cancelledWhileSending => "Stream cancelled while waiting on consumer"
  | .consumerGone => "Stream consumer dropped, stopping"

theorem Ending.message_injective : Function.Injective Ending.message := by
  intro how how' h
  cases how <;> cases how' <;> first | rfl | exact absurd h (by decide)

namespace Run

variable {α : Type} {entries : List Entry} {t : Trace α}

/-! ### Progress notes -/

/-- The note is the one on the last of the first `10 * (j + 1)` entries. -/
def IsSample (entries : List Entry) (j : Nat) (note : Note) : Prop :=
  ∃ e, entries[10 * j + 9]? = some e ∧ note = .progress (10 * (j + 1)) e.category e.subcategory

/-- The notes are those on every tenth of the first `n` entries, in order. -/
def Samples (entries : List Entry) (n : Nat) (notes : List Note) : Prop :=
  List.Forall₂ (IsSample entries) (List.range (n / 10)) notes

theorem samples_zero : Samples entries 0 [] := .nil

/-- The next entry adds its note, if it has one. -/
theorem Samples.concat {n : Nat} {notes : List Note} {e : Entry} {rest : List Entry}
    (h : Samples entries n notes) (he : entries.drop n = e :: rest) :
    Samples entries (n + 1) (notes ++ progressNotes (n + 1) e) := by
  unfold Samples progressNotes sampleInterval at *
  split
  next hten =>
    have hquotient : (n + 1) / 10 = n / 10 + 1 := by omega
    have hindex : 10 * (n / 10) + 9 = n := by omega
    have hnumber : 10 * (n / 10 + 1) = n + 1 := by omega
    have hget : entries[n]? = some e := by rw [← List.head?_drop, he]; rfl
    rw [hquotient, List.range_succ]
    refine List.rel_append h (.cons ⟨e, ?_, ?_⟩ .nil)
    · rw [hindex, hget]
    · rw [hnumber]
  next hten =>
    have hquotient : (n + 1) / 10 = n / 10 := by omega
    rw [hquotient, List.append_nil]
    exact h

/-! ### The notes of a history -/

/-- What is noted as far as the run has come. -/
inductive Noted (entries : List Entry) (t : Trace α) : Prop
  | starting (hs : t.run.stage = .starting) (he : t.run.emitted = 0) (hn : t.notes = [])
  | working (progress : List Note) (hs : t.run.stage ≠ .starting)
      (hf : t.run.isFinished = false) (hp : Samples entries t.run.emitted progress)
      (hn : t.notes = .started t.run.total t.run.capacity :: progress)
  | ended (how : Ending) (progress : List Note) (hs : t.run.stage = .finished how)
      (hp : Samples entries t.run.emitted progress)
      (hn : t.notes = .started t.run.total t.run.capacity ::
        (progress ++ [.ended how t.run.emitted t.run.total]))

theorem Noted.start (c : Catalog) (config : Config) (token : Token) :
    Noted entries (Trace.start (α := α) c config token) :=
  .starting rfl rfl rfl

/-- A producer that has started and not ended has noted its start and its progress. -/
theorem Noted.exists_progress (h : Noted entries t) (hs : t.run.stage ≠ .starting)
    (hf : t.run.isFinished = false) :
    ∃ progress, Samples entries t.run.emitted progress ∧
      t.notes = .started t.run.total t.run.capacity :: progress := by
  cases h with
  | starting hs' _ _ => exact absurd hs' hs
  | working progress _ _ hp hn => exact ⟨progress, hp, hn⟩
  | ended _ _ hs' _ _ =>
    have hf' : t.run.isFinished = true := isFinished_iff.mpr ⟨_, hs'⟩
    rw [hf] at hf'
    cases hf'

theorem Noted.moved {make : Nat → Entry → α × Stamp} {producedBy : String} {m : Move α}
    (h : Noted entries t) (hprogress : Progress make producedBy entries t)
    (hm : Moves t.cancelled (make t.calls) t.run m) : Noted entries (t.moved m) := by
  have hf := hm.not_isFinished
  cases hm with
  | start hs =>
    cases h with
    | starting _ he hn =>
      refine .working [] (by rintro ⟨⟩) rfl ?_ ?_
      · show Samples entries t.run.emitted []
        rw [he]
        exact samples_zero
      · show t.notes ++ _ = _
        rw [hn]
        rfl
    | working _ hs' _ _ _ => exact absurd hs hs'
    | ended _ _ hs' _ _ => cases hs.symm.trans hs'
  | begin hs _ _ | call hs | count hs =>
    obtain ⟨progress, hp, hn⟩ := h.exists_progress (by rw [hs]; rintro ⟨⟩) hf
    exact .working progress (by rintro ⟨⟩) rfl hp ((List.append_nil _).trans hn)
  | @send e x hs _ _ _ =>
    obtain ⟨progress, hp, hn⟩ := h.exists_progress (by rw [hs]; rintro ⟨⟩) hf
    have he : entries.drop t.run.emitted = e :: t.run.pending := by
      rw [hprogress.drop_emitted hf, remaining, hs]
      rfl
    refine .working _ (by rintro ⟨⟩) rfl (hp.concat he) ?_
    show t.notes ++ _ = _
    rw [hn]
    rfl
  | complete hs _ | stopBefore hs _ _ | stopSending hs _ | giveUp hs _ _ =>
    obtain ⟨progress, hp, hn⟩ := h.exists_progress (by rw [hs]; rintro ⟨⟩) hf
    refine .ended _ progress rfl hp ?_
    show t.notes ++ _ = _
    rw [hn]
    rfl

theorem Noted.served (h : Noted entries t) (q : Request) :
    Noted entries (t.served (t.run.serve t.cancelled q)) := by
  have hsettings := settings_serve t.cancelled t.run q
  have htotal : (t.run.serve t.cancelled q).2.total = t.run.total := congrArg (·.2.2.2) hsettings
  have hcapacity : (t.run.serve t.cancelled q).2.capacity = t.run.capacity :=
    congrArg (·.2.2.1) hsettings
  cases h with
  | starting hs he hn =>
    refine .starting ?_ ?_ hn <;> simp only [Trace.served, stage_serve, emitted_serve, hs, he]
  | working progress hs hf hp hn =>
    refine .working progress ?_ ?_ ?_ ?_ <;>
      simp only [Trace.served, stage_serve, emitted_serve, isFinished_serve, htotal, hcapacity]
    · exact hs
    · exact hf
    · exact hp
    · exact hn
  | ended how progress hs hp hn =>
    refine .ended how progress ?_ ?_ ?_ <;>
      simp only [Trace.served, stage_serve, emitted_serve, htotal, hcapacity]
    · exact hs
    · exact hp
    · exact hn

/-- Every act of every party keeps to the notes. -/
theorem Noted.step {make : Nat → Entry → α × Stamp} {producedBy : String} (h : Noted entries t)
    (hprogress : Progress make producedBy entries t) (a : Act) :
    Noted entries (t.step (make t.calls) a) := by
  refine Trace.step_cases h (fun m hm => h.moved hprogress hm) (fun q _ => h.served q) ?_
  cases h with
  | starting hs he hn => exact .starting hs he hn
  | working progress hs hf hp hn => exact .working progress hs hf hp hn
  | ended how progress hs hp hn => exact .ended how progress hs hp hn

theorem Noted.after {make : Nat → Entry → α × Stamp} {producedBy : String}
    (h : Noted entries t) (hsound : Sound make producedBy entries t) (acts : List Act) :
    Noted entries (t.after make acts) := by
  induction acts generalizing t with
  | nil => exact h
  | cons a acts ih => exact ih (h.step hsound.progress a) (hsound.step a)

/-- The notes of a run that has ended. -/
theorem Noted.exists_of_ended {how : Ending} (h : Noted entries t)
    (hs : t.run.stage = .finished how) :
    ∃ progress, Samples entries t.run.emitted progress ∧
      t.notes = .started t.run.total t.run.capacity ::
        (progress ++ [.ended how t.run.emitted t.run.total]) := by
  cases h with
  | starting hs' _ _ => cases hs.symm.trans hs'
  | working _ _ hf _ _ =>
    have hf' : t.run.isFinished = true := isFinished_iff.mpr ⟨how, hs⟩
    rw [hf] at hf'
    cases hf'
  | ended how' progress hs' hp hn =>
    cases hs.symm.trans hs'
    exact ⟨progress, hp, hn⟩

/-! ### The log of a run -/

/-- What is noted on every tenth record, as events. -/
theorem Samples.events {n : Nat} {notes : List Note} (h : Samples entries n notes) :
    (notes.map Note.event).length = n / 10 ∧
      ∀ j < n / 10, ∃ e, entries[10 * (j + 1) - 1]? = some e ∧
        (notes.map Note.event)[j]? = some ⟨.debug, "Stream progress",
          [("processed", .nat (10 * (j + 1))), ("category", .text e.category),
            ("subcategory", .text e.subcategory)]⟩ := by
  have hlength : notes.length = n / 10 := by rw [← h.length_eq, List.length_range]
  refine ⟨List.length_map _ |>.trans hlength, fun j hj => ?_⟩
  obtain ⟨e, he, hnote⟩ := h.get (by rwa [List.length_range]) (hlength ▸ hj)
  simp only [List.get_eq_getElem, List.getElem_range] at he hnote
  refine ⟨e, he, ?_⟩
  rw [List.getElem?_map, List.getElem?_eq_getElem (hlength ▸ hj), hnote]
  rfl

/-- The event on the end of a run has a message of its own for every way to end, and says how many
records were sent. -/
theorem event_ended (how : Ending) (processed total : Nat) :
    (Note.event (.ended how processed total)).message = how.message ∧
      (Note.event (.ended how processed total)).fields.lookup "processed"
        = some (.nat processed) := by
  cases how <;> exact ⟨rfl, rfl⟩

theorem message_of_mem_progress {n : Nat} {notes : List Note} (h : Samples entries n notes)
    {event : Log.Event} (hevent : event ∈ notes.map Note.event) :
    event.message = "Stream progress" := by
  obtain ⟨hlength, hall⟩ := h.events
  obtain ⟨j, hj, rfl⟩ := List.mem_iff_getElem.mp hevent
  obtain ⟨e, -, he⟩ := hall j (hlength ▸ hj)
  rw [List.getElem?_eq_getElem hj] at he
  rw [Option.some.inj he]

/-- How the state of a run agrees with the way in which it ended. -/
def Trace.EndedBy (t : Trace α) (sent total : Nat) : Ending → Prop
  | .completed => sent = total
  | .cancelledBeforeEntry => t.cancelled = true ∧ sent < total ∧ t.counts.length = sent
  | .cancelledWhileSending => t.cancelled = true ∧ sent < total ∧ t.counts.length = sent + 1
  | .consumerGone =>
    t.run.receiver ≠ .listening ∧ sent < total ∧ t.counts.length = sent + 1

theorem Sound.endedBy {make : Nat → Entry → α × Stamp} {producedBy : String} {how : Ending}
    (h : Sound make producedBy entries t) (hs : t.run.stage = .finished how) :
    t.EndedBy t.run.emitted entries.length how := by
  have hcounts := h.progress.length_counts.trans h.progress.counted_eq
  rw [hs] at hcounts
  have hcancelled : how.isCancellation = true → t.cancelled = true := by
    intro hhow
    refine h.reported.cancelled ?_
    rw [h.reported.ended how hs, hhow]
    exact nofun
  cases how with
  | completed => exact h.progress.completed hs
  | cancelledBeforeEntry =>
    exact ⟨hcancelled rfl, h.progress.not_completed _ hs nofun, hcounts⟩
  | cancelledWhileSending =>
    exact ⟨hcancelled rfl, h.progress.not_completed _ hs nofun, hcounts⟩
  | consumerGone => exact ⟨h.reported.gone hs, h.progress.not_completed _ hs nofun, hcounts⟩

/-- **The log of a run that has ended accounts for the run.**

* It opens with one event that gives the number of entries and the size of the buffer, which is
  never zero.
* Then there is one event for every ten records sent, in order, which names the entry of the last of
  them.
* It closes with one event, whose message tells in which way the run ended and which gives the
  number of records sent.
* The run is as its ending says: it has sent everything, or it was cancelled without or with a
  counted record in hand, or its consumer is gone.
* It says that it has completed exactly if all records were sent. -/
theorem log_accounts_for_run {rows : List Row} {c : Catalog} (hc : Catalog.build rows = .ok c)
    (config : Config) (token : Token) (make : Nat → Entry → α × Stamp) (acts : List Act)
    {how : Ending}
    (hs : ((Trace.start (α := α) c config token).after make acts).run.stage = .finished how) :
    let start := Trace.start (α := α) c config token
    let t := start.after make acts
    let sent := (start.emissions make acts).length
    let log := t.notes.map Note.event
    (∃ progress final, log = ⟨.info, "Stream processing started",
          [("total", .nat c.size), ("capacity", .nat (max 1 config.batchSize))]⟩ ::
            (progress ++ [final]) ∧
      (progress.length = sent / 10 ∧ ∀ j < sent / 10, ∃ e, c.entries[10 * (j + 1) - 1]? = some e ∧
        progress[j]? = some ⟨.debug, "Stream progress",
          [("processed", .nat (10 * (j + 1))), ("category", .text e.category),
            ("subcategory", .text e.subcategory)]⟩) ∧
      (∀ how', final.message = how'.message ↔ how' = how) ∧
      final.fields.lookup "processed" = some (.nat sent)) ∧
    t.EndedBy sent c.size how ∧
    (Ending.message .completed ∈ log.map (·.message) ↔ sent = c.size) := by
  intro start t sent log
  have hsound : Sound make config.producerName c.entries t :=
    (Sound.start make c config token).after acts
  have hsize : c.size = c.entries.length := Catalog.size_eq_of_build hc
  have hsent : sent = t.run.emitted := length_emissions_start make c config token acts
  have hsettings : t.run.settings = start.run.settings := Trace.settings_after make start acts
  have htotal : t.run.total = c.size := (congrArg (·.2.2.2) hsettings).trans hsize.symm
  have hcapacity : t.run.capacity = max 1 config.batchSize := congrArg (·.2.2.1) hsettings
  have hnoted : Noted c.entries t :=
    (Noted.start c config token).after (Sound.start make c config token) acts
  obtain ⟨progress, hp, hn⟩ := hnoted.exists_of_ended hs
  rw [htotal, hcapacity, ← hsent] at hn
  rw [← hsent] at hp
  have hlog : log = Note.event (.started c.size (max 1 config.batchSize)) ::
      (progress.map Note.event ++ [Note.event (.ended how sent c.size)]) := by
    show t.notes.map Note.event = _
    rw [hn, List.map_cons, List.map_append, List.map_singleton]
  obtain ⟨hmessage, hprocessed⟩ := event_ended how sent c.size
  have hended : t.EndedBy sent c.size how := by
    rw [hsent, hsize]
    exact hsound.endedBy hs
  have hkind : ∀ how', (Note.event (.ended how sent c.size)).message = how'.message
      ↔ how' = how := by
    intro how'
    rw [hmessage, Ending.message_injective.eq_iff, eq_comm]
  refine ⟨⟨_, _, hlog, hp.events, hkind, hprocessed⟩, hended, ?_⟩
  constructor
  · -- neither the first event nor one on progress has this message
    intro hmem
    obtain ⟨event, hevent, hcompleted⟩ := List.mem_map.mp hmem
    rw [hlog, List.mem_cons, List.mem_append, List.mem_singleton] at hevent
    obtain rfl | hevent | rfl := hevent
    · have hne : "Stream processing started" ≠ "Stream processing completed" := by decide
      exact absurd hcompleted hne
    · rw [message_of_mem_progress hp hevent] at hcompleted
      exact absurd hcompleted (by decide)
    · rw [← (hkind _).mp hcompleted] at hended
      exact hended
  · intro hall
    obtain rfl : how = .completed := by
      by_contra hne
      have hlt := hsound.progress.not_completed how hs hne
      omega
    rw [hlog]
    exact List.mem_map.mpr ⟨_, List.mem_cons_of_mem _ (List.mem_append_right _
      List.mem_cons_self), hmessage⟩

/-- The rows of a catalog of eleven items. -/
def elevenRows : List Row :=
  [⟨"letters", ⟨"vowels", ["a", "e", "i", "o", "u"]⟩⟩,
    ⟨"letters", ⟨"others", ["b", "c", "d", "f", "g", "h"]⟩⟩]

/-- A catalog of eleven items. -/
def elevenLetters : Catalog :=
  .ofCategories [.ofSubcategories "letters"
    [⟨"vowels", ["a", "e", "i", "o", "u"]⟩, ⟨"others", ["b", "c", "d", "f", "g", "h"]⟩]]

/-- The acts of a run that is cancelled when it has its eleventh record in hand. -/
def cancelEleventh : List Act := List.replicate 44 .produce ++ [.cancel, .produce]

/-- Such a run of eleven entries. -/
def elevenRun : Trace Unit :=
  (Trace.start elevenLetters { batchSize := 64 } Tokens.root).after (fun _ _ => ((), default))
    cancelEleventh

theorem log_accounts_for_run_elevenRun :
    elevenRun.run.stage = .finished .cancelledWhileSending ∧
      elevenRun.cancelled = true ∧ elevenRun.counts.length = 11 ∧
      ∃ e, elevenLetters.entries[9]? = some e ∧ e.item = "g" ∧
        (elevenRun.notes.map Note.event)[1]? = some ⟨.debug, "Stream progress",
          [("processed", .nat 10), ("category", .text e.category),
            ("subcategory", .text e.subcategory)]⟩ := by
  have hbuild : Catalog.build elevenRows = .ok elevenLetters := rfl
  have hs : elevenRun.run.stage = .finished .cancelledWhileSending := by decide +kernel
  rw [elevenRun] at hs ⊢
  obtain ⟨⟨progress, final, hlog, ⟨-, hprogress⟩, -, -⟩, ⟨hc, -, hcounts⟩, -⟩ :=
    log_accounts_for_run hbuild { batchSize := 64 } Tokens.root (fun _ _ => ((), default))
      cancelEleventh hs
  have hsent : ((Trace.start (α := Unit) elevenLetters { batchSize := 64 } Tokens.root).emissions
      (fun _ _ => ((), default)) cancelEleventh).length = 10 := by decide +kernel
  rw [hsent] at hprogress hcounts
  obtain ⟨e, he, hevent⟩ := hprogress 0 (by decide)
  have hlength : 0 < progress.length := (List.getElem?_eq_some_iff.mp hevent).1
  refine ⟨hs, hc, hcounts, e, he, ?_, ?_⟩
  · rw [show elevenLetters.entries[9]? = some ⟨"letters", "others", "g", 4⟩ from rfl] at he
    rw [← Option.some.inj he]
  · rw [hlog, List.getElem?_cons_succ, List.getElem?_append_left hlength, hevent]

end Run

end EmojiCatalog
