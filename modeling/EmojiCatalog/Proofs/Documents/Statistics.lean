import EmojiCatalog.Proofs.Documents
import EmojiCatalog.Proofs.Instant
import EmojiCatalog.Proofs.Json.Kept
import Mathlib.Data.List.Nodup
/-!
Statistics and records read back.

The document of statistics holds two groups of members in one object: the tally's, which are kept as
values until the object is over, and the readings', of which the memory and the live tasks are left
out when there are none.  `Stats.GivenBy` says which members give some statistics: those of the
tally and the time once each, the readings once or, when there are none, not at all or as `null`,
and others with texts or words.  Such an object is read as these statistics in whatever order its
members stand (`Stats.GivenBy.reads_object`), and the document that is written is one of them
(`Stats.givenBy_written`), because its keys are distinct: those of the counted categories stand one
level deeper.

Records and what is known about their items are faithful documents because instants are read back.
-/

namespace EmojiCatalog

open Json

/-! ### Maps -/

namespace KeyMap

variable {β : Type} {m : KeyMap β}

/-- Entries beyond all others are put at the end, one after the other. -/
theorem entries_foldl_insert {es : List (String × β)}
    (h : ((m.entries ++ es).map Prod.fst).Pairwise (· < ·)) :
    (es.foldl (fun m p => m.insert p.1 p.2) m).entries = m.entries ++ es := by
  induction es generalizing m with
  | nil => exact (List.append_nil _).symm
  | cons p es ih =>
    have hinsert : (m.insert p.1 p.2).entries = m.entries ++ [p] := by
      refine alterSorted_concat fun a ha => ?_
      rw [List.map_append, List.pairwise_append] at h
      exact h.2.2 a ha p.1 List.mem_cons_self
    have happend : (m.insert p.1 p.2).entries ++ es = m.entries ++ p :: es := by
      rw [hinsert, List.append_assoc, List.singleton_append]
    exact (ih (m := m.insert p.1 p.2) (happend ▸ h)).trans happend

theorem ofList_entries (m : KeyMap β) : ofList m.entries = m :=
  ext (entries_foldl_insert m.ascending)

/-- A map is made of its entries in any order. -/
theorem ofList_of_perm {pairs : List (String × β)} (h : pairs.Perm m.entries) :
    ofList pairs = m := by
  have hkeys : (m.entries.map Prod.fst).Nodup :=
    m.ascending.imp fun {a b} (hlt : a < b) (heq : a = b) => String.lt_irrefl b (heq ▸ hlt)
  have hcomm : ∀ p ∈ pairs, ∀ q ∈ pairs, ∀ n : KeyMap β,
      (n.insert p.1 p.2).insert q.1 q.2 = (n.insert q.1 q.2).insert p.1 p.2 := by
    intro p hp q hq n
    by_cases hpq : p.1 = q.1
    · obtain rfl : p = q :=
        List.inj_on_of_nodup_map hkeys (h.mem_iff.mp hp) (h.mem_iff.mp hq) hpq
      rfl
    · exact alter_comm n _ _ hpq
  exact (h.foldl_eq' hcomm empty).trans (ofList_entries m)

end KeyMap

/-! ### Instants -/

theorem Codec.faithful_spelled {α : Type} {spell : α → String} {ofText? : String → Option α}
    {fits : α → Prop} (hspell : ∀ x, fits x → ofText? (spell x) = some x)
    (hfits : ∀ s x, ofText? s = some x → fits x) : (Codec.spelled spell ofText?).Faithful fits where
  read_chars x hx rest hrest := by
    have hread := Codec.faithful_text.read_chars (spell x) trivial rest hrest
    show (Codec.text.read ((Codec.text.write (spell x)).chars ++ rest) >>= _) = _
    simp only [hread, bind, Except.bind, hspell x hx]
  fits_of_read cs x rest h := by
    obtain ⟨⟨s, cs'⟩, -, h⟩ := bind_eq_ok_iff.mp h
    dsimp only at h
    split at h
    next y hy =>
      cases h
      exact hfits s x hy
    next => cases h

theorem Instant.faithful_codec : codec.Faithful fun t => t.isValid = true :=
  Codec.faithful_spelled (fun _ => ofText?_text) fun _ _ => isValid_of_ofText?

/-! ### Records -/

theorem Metadata.faithful_codec : codec.Faithful fun m =>
    m.length < wordLimit ∧ m.byteSize < wordLimit ∧ m.stamp.createdAt.isValid = true := by
  have hrecord : codec.Faithful _ := Fields.Faithful.record
    (.required Codec.faithful_word rfl <| .required Codec.faithful_word rfl <|
      .required Codec.faithful_text rfl <| .required Instant.faithful_codec rfl <|
      .required Codec.faithful_text rfl <|
      .required Codec.faithful_text rfl Fields.faithful_nil)
    (fun _ => rfl) fun _ => rfl
  exact hrecord.of_iff fun m => by simp only [and_true, true_and]

theorem Record.faithful_codec {α : Type} {payload : Codec α} {fits : α → Prop}
    (h : payload.Faithful fits) : (codec payload).Faithful fun r =>
      fits r.payload ∧ r.metadata.length < wordLimit ∧ r.metadata.byteSize < wordLimit ∧
        r.metadata.stamp.createdAt.isValid = true := by
  have hrecord : (codec payload).Faithful _ := Fields.Faithful.record
    (.required Codec.faithful_text rfl <| .required Codec.faithful_text rfl <|
      .required h rfl <| .required Metadata.faithful_codec rfl Fields.faithful_nil)
    (fun _ => rfl) fun _ => rfl
  exact hrecord.of_iff fun r => by simp only [and_true, true_and]

/-! ### Texts of statistics -/

variable {ms : List (String × List Char)} {cs : List Char}

/-- The text is an object of the counts, in any order. -/
def SpellsCounts (counts : KeyMap Nat) (cs : List Char) : Prop :=
  ∃ pairs : List (String × Nat), pairs.Perm counts.entries ∧ (∀ p ∈ pairs, p.2 < UInt64.size) ∧
    SpellsObject (pairs.map fun p => (p.1, Nat.toDigits 10 p.2)) cs

/-- Counts are kept as an object of them, of which the map is made. -/
theorem SpellsCounts.exists_reads_value {counts : KeyMap Nat}
    (h : SpellsCounts counts cs) :
    ∃ pairs : List (String × Nat), KeyMap.ofList pairs = counts ∧
      Reads (readValue Codec.depthLimit) (.object (pairs.map fun p => (p.1, .whole p.2))) cs := by
  obtain ⟨pairs, hperm, hwords, hcs⟩ := h
  refine ⟨pairs, KeyMap.ofList_of_perm hperm, reads_value_object ?_ hcs⟩
  rw [List.forall₂_map_left_iff, List.forall₂_map_right_iff, List.forall₂_same]
  exact fun p hp => ⟨rfl, SpellsWord.reads_value ⟨hwords p hp, rfl⟩⟩

namespace MemoryUsage

/-- The keys of a reading of the memory. -/
def keys : List String := ["rss_bytes", "virtual_bytes"]

/-- The members give the reading of the memory. -/
structure GivenBy (m : MemoryUsage) (ms : List (String × List Char)) : Prop where
  rssBytes : List.Forall₂ SpellsWord [m.rssBytes] (textsUnder "rss_bytes" ms)
  virtualBytes : List.Forall₂ SpellsWord [m.virtualBytes] (textsUnder "virtual_bytes" ms)
  others : ∀ p ∈ ms, p.1 ∉ keys → IsValue p.2

/-- The text is an object that gives the reading. -/
def Spells (m : MemoryUsage) (cs : List Char) : Prop := ∃ ms, m.GivenBy ms ∧ SpellsObject ms cs

theorem Spells.reads {m : MemoryUsage} (h : m.Spells cs) : Reads codec.read m cs := by
  obtain ⟨ms, hgiven, hcs⟩ := h
  have hread : Reads codec.read _ cs := Fields.Fills.reads_record
    (.required rfl (hgiven.rssBytes.imp fun _ _ => SpellsWord.reads) <|
      .required rfl (hgiven.virtualBytes.imp fun _ _ => SpellsWord.reads) <| Fields.fills_nil ms)
    (fun p hp hunknown => hgiven.others p hp (Fields.not_mem_of_not_knows (by decide) hunknown)) hcs
  exact hread

theorem spells_write {m : MemoryUsage}
    (h : m.rssBytes < UInt64.size ∧ m.virtualBytes < UInt64.size) :
    m.Spells (codec.write m).chars := by
  refine ⟨_, ⟨.cons ⟨h.1, rfl⟩ .nil, .cons ⟨h.2, rfl⟩ .nil, fun p hp hkey => ?_⟩,
    spellsObject_chars [("rss_bytes", .whole m.rssBytes), ("virtual_bytes", .whole m.virtualBytes)]⟩
  simp only [List.map_cons, List.map_nil, List.mem_cons, List.not_mem_nil, or_false] at hp
  obtain rfl | rfl := hp
  · exact absurd (show "rss_bytes" ∈ keys by decide) hkey
  · exact absurd (show "virtual_bytes" ∈ keys by decide) hkey

theorem Spells.head_ne {m : MemoryUsage} (h : m.Spells cs) : cs.head? ≠ some 'n' := by
  obtain ⟨ms, -, ds, -, rfl⟩ := h
  intro hhead
  cases hhead

end MemoryUsage

namespace Stats

/-- The numbers are words of 64 bits, and the time is valid. -/
structure Fits (s : Stats) : Prop where
  counts : ∀ n ∈ s.tally.counts.values, n < UInt64.size
  total : s.tally.total < UInt64.size
  memory : ∀ m ∈ s.memory, m.rssBytes < UInt64.size ∧ m.virtualBytes < UInt64.size
  liveTasks : ∀ n ∈ s.liveTasks, n < UInt64.size
  timestamp : s.timestamp.isValid = true

/-- The keys of statistics. -/
def keys : List String := ["categories", "total", "memory", "live_tasks", "timestamp"]

/-- The members give the statistics: each in its place or out of it, a reading that is missing as
`null` or not at all, and others with texts or words. -/
structure GivenBy (s : Stats) (ms : List (String × List Char)) : Prop where
  categories : List.Forall₂ SpellsCounts [s.tally.counts] (textsUnder "categories" ms)
  total : List.Forall₂ SpellsWord [s.tally.total] (textsUnder "total" ms)
  memory : SpellsOmissible MemoryUsage.Spells s.memory (textsUnder "memory" ms)
  liveTasks : SpellsOmissible SpellsWord s.liveTasks (textsUnder "live_tasks" ms)
  timestamp : List.Forall₂ SpellsText [s.timestamp.text] (textsUnder "timestamp" ms)
  others : ∀ p ∈ ms, p.1 ∉ keys → (∃ t, SpellsText t p.2) ∨ ∃ n, SpellsWord n p.2

/-! ### The members of the tally -/

theorem mapM_count? (pairs : List (String × Nat)) :
    (pairs.map fun p => (p.1, Value.whole p.2)).mapM count? = some pairs := by
  induction pairs with
  | nil => rfl
  | cons p pairs ih =>
    rw [List.map_cons, List.mapM_cons, ih]
    rfl

/-- The members of the readings. -/
def readings : Fields (Option MemoryUsage × Option Nat × Instant × Unit) :=
  .omissible "memory" MemoryUsage.codec <| .omissible "live_tasks" .word <|
    .required "timestamp" Instant.codec .nil

variable {s : Stats}

theorem not_mem_keys_of_not_knows {k : String} (h : readings.knows k = false)
    (hcategories : k ≠ "categories") (htotal : k ≠ "total") : k ∉ keys := by
  have hreadings : k ∉ ["memory", "live_tasks", "timestamp"] :=
    Fields.not_mem_of_not_knows (by decide) h
  exact List.not_mem_cons_of_ne_of_not_mem hcategories
    (List.not_mem_cons_of_ne_of_not_mem htotal hreadings)

/-- All members but those of the readings are kept as values. -/
theorem GivenBy.exists_kept (h : s.GivenBy ms) :
    ∃ vs, List.Forall₂ (ReadsAs Codec.depthLimit) vs (readings.unknown ms) := by
  have hkept : ∀ p ∈ readings.unknown ms, ∃ v, ReadsAs Codec.depthLimit v p := by
    intro p hp
    obtain ⟨hmem, hunknown⟩ := List.mem_filter.mp hp
    have hunder := mem_textsUnder hmem
    by_cases hcategories : p.1 = "categories"
    · obtain ⟨v, hv, htexts⟩ := exists_eq_singleton_of_forall₂ h.categories
      rw [hcategories, htexts, List.mem_singleton] at hunder
      obtain ⟨pairs, -, hread⟩ := hv.exists_reads_value
      exact ⟨(p.1, _), rfl, hunder ▸ hread⟩
    · by_cases htotal : p.1 = "total"
      · obtain ⟨v, hv, htexts⟩ := exists_eq_singleton_of_forall₂ h.total
        rw [htotal, htexts, List.mem_singleton] at hunder
        exact ⟨(p.1, _), rfl, hunder ▸ hv.reads_value⟩
      · have hkey := not_mem_keys_of_not_knows (by simpa using hunknown) hcategories htotal
        obtain ⟨t, ht⟩ | ⟨n, hn⟩ := h.others p hmem hkey
        · exact ⟨(p.1, _), rfl, ht.reads_value⟩
        · exact ⟨(p.1, _), rfl, hn.reads_value⟩
  generalize readings.unknown ms = ps at hkept
  induction ps with
  | nil => exact ⟨[], .nil⟩
  | cons p ps ih =>
    obtain ⟨⟨v, hv⟩, hps⟩ := List.forall_mem_cons.mp hkept
    obtain ⟨vs, hvs⟩ := ih hps
    exact ⟨v :: vs, .cons hv hvs⟩

/-- The tally is made of the members that are kept. -/
theorem GivenBy.tally?_kept (h : s.GivenBy ms) {vs : List (String × Value)}
    (hvs : List.Forall₂ (ReadsAs Codec.depthLimit) vs (readings.unknown ms)) :
    tally? vs = some s.tally := by
  obtain ⟨v, hv, hcategories⟩ := exists_eq_singleton_of_forall₂ h.categories
  obtain ⟨w, hw, htotal⟩ := exists_eq_singleton_of_forall₂ h.total
  obtain ⟨pairs, hpairs, hread⟩ := hv.exists_reads_value
  have hcounts := Fields.filter_kept hvs rfl hcategories hread
  have hsum := Fields.filter_kept hvs rfl htotal hw.reads_value
  simp only [tally?, hcounts, hsum, mapM_count?, Option.map_some, hpairs]

/-! ### Documents of statistics -/

/-- The statistics are read from every object that gives them. -/
theorem GivenBy.reads_object (h : s.GivenBy ms) (htime : s.timestamp.isValid = true)
    (hcs : SpellsObject ms cs) : Reads codec.read s cs := by
  obtain ⟨vs, hvs⟩ := h.exists_kept
  have htimestamp : List.Forall₂ (Reads Instant.codec.read) [s.timestamp]
      (textsUnder "timestamp" ms) := by
    obtain ⟨v, hv, heq⟩ := exists_eq_singleton_of_forall₂ h.timestamp
    rw [heq]
    exact .cons (hv.reads_spelled (Instant.ofText?_text htime)) .nil
  have hfills : readings.Fills ms (s.memory, s.liveTasks, s.timestamp, ()) :=
    .omissible rfl (fun _ _ hm => ⟨hm.reads, hm.head_ne⟩) h.memory <|
    .omissible rfl (fun _ _ hn => ⟨hn.reads, hn.head_ne⟩) h.liveTasks <|
    .required rfl htimestamp <| Fields.fills_nil ms
  have hread : Reads codec.read _ cs := hfills.reads_merged hvs (h.tally?_kept hvs) hcs
  exact hread

/-! ### The written document -/

/-- The members that are written. -/
def written (s : Stats) : List (String × Value) :=
  tallyMembers s.tally ++ readings.members (s.memory, s.liveTasks, s.timestamp, ())

theorem write_codec (s : Stats) : codec.write s = .object s.written := rfl

/-- A reading is written under its key, or not at all. -/
theorem written_eq (s : Stats) : s.written =
    ("categories", .object (s.tally.counts.entries.map fun p => (p.1, .whole p.2))) ::
      ("total", .whole s.tally.total) ::
      ((s.memory.map fun m => ("memory", MemoryUsage.codec.write m)).toList ++
        ((s.liveTasks.map fun n => ("live_tasks", .whole n)).toList ++
          [("timestamp", .text s.timestamp.text)])) := by
  obtain ⟨tally, memory, liveTasks, timestamp⟩ := s
  cases memory <;> cases liveTasks <;> rfl

theorem keys_written (s : Stats) : s.written.map Prod.fst =
    "categories" :: "total" :: ((if s.memory.isSome then ["memory"] else []) ++
      ((if s.liveTasks.isSome then ["live_tasks"] else []) ++ ["timestamp"])) := by
  rw [written_eq]
  cases s.memory <;> cases s.liveTasks <;> rfl

/-- The keys of the two groups never clash. -/
theorem nodup_keys_written (s : Stats) : (s.written.map Prod.fst).Nodup := by
  rw [keys_written]
  cases s.memory.isSome <;> cases s.liveTasks.isSome <;> decide

theorem mem_keys_of_mem_written {p : String × Value} (h : p ∈ s.written) : p.1 ∈ keys := by
  have hmem : p.1 ∈ s.written.map Prod.fst := List.mem_map_of_mem h
  rw [keys_written] at hmem
  generalize p.1 = k at hmem
  revert k
  cases s.memory.isSome <;> cases s.liveTasks.isSome <;> simp +contextual [keys]

theorem spellsCounts_written (h : s.Fits) :
    SpellsCounts s.tally.counts
      (Value.object (s.tally.counts.entries.map fun p => (p.1, .whole p.2))).chars := by
  refine ⟨s.tally.counts.entries, .refl _, fun p hp => h.counts _ (List.mem_map_of_mem hp), ?_⟩
  have hobject := spellsObject_chars (s.tally.counts.entries.map fun p => (p.1, .whole p.2))
  rwa [List.map_map] at hobject

/-- The members that are written, as texts. -/
def writtenTexts (s : Stats) : List (String × List Char) := s.written.map fun p => (p.1, p.2.chars)

/-- Under every key stands one text, or none if the reading is missing. -/
theorem textsUnder_written (s : Stats) :
    textsUnder "categories" s.writtenTexts
        = [(Value.object (s.tally.counts.entries.map fun p => (p.1, .whole p.2))).chars] ∧
      textsUnder "total" s.writtenTexts = [Nat.toDigits 10 s.tally.total] ∧
      textsUnder "memory" s.writtenTexts
        = (s.memory.map fun m => (MemoryUsage.codec.write m).chars).toList ∧
      textsUnder "live_tasks" s.writtenTexts = (s.liveTasks.map (Nat.toDigits 10)).toList ∧
      textsUnder "timestamp" s.writtenTexts = [quote s.timestamp.text] := by
  rw [writtenTexts, written_eq]
  cases s.memory <;> cases s.liveTasks <;> exact ⟨rfl, rfl, rfl, rfl, rfl⟩

/-- The written members give the statistics. -/
theorem givenBy_written (h : s.Fits) : s.GivenBy s.writtenTexts := by
  obtain ⟨hcategories, htotal, hmemory, hliveTasks, htimestamp⟩ := s.textsUnder_written
  constructor
  case categories => exact hcategories ▸ .cons (spellsCounts_written h) .nil
  case total => exact htotal ▸ .cons ⟨h.total, rfl⟩ .nil
  case memory =>
    exact hmemory ▸ spellsOmissible_toList fun m hm => MemoryUsage.spells_write (h.memory m hm)
  case liveTasks =>
    exact hliveTasks ▸ spellsOmissible_toList fun n hn => ⟨h.liveTasks n hn, rfl⟩
  case timestamp => exact htimestamp ▸ .cons (spellsText_quote _) .nil
  case others =>
    intro p hp hkey
    obtain ⟨q, hq, rfl⟩ := List.mem_map.mp hp
    exact absurd (mem_keys_of_mem_written hq) hkey

end Stats

/-! ### Round trips -/

/-- Statistics are read back from their document, whose keys are distinct and which leaves out the
readings that are missing; and they are read from every document that gives them.  Records of text
and what is known about their items are read back from their documents, and whatever is read from a
document is read back from its own. -/
theorem statistics_and_records_round_trip :
    (∀ s : Stats, s.Fits →
      Stats.codec.decode (Stats.codec.encode s) = .ok s ∧
      (∃ members, Stats.codec.write s = .object members ∧ (members.map Prod.fst).Nodup ∧
        ("memory" ∈ members.map Prod.fst ↔ s.memory.isSome) ∧
        ("live_tasks" ∈ members.map Prod.fst ↔ s.liveTasks.isSome)) ∧
      ∀ ms document, s.GivenBy ms → IsDocument (SpellsObject ms) document →
        Stats.codec.decode document = .ok s) ∧
    Metadata.codec.RoundTrips (fun m =>
      m.length < UInt64.size ∧ m.byteSize < UInt64.size ∧ m.stamp.createdAt.isValid = true) ∧
    (Record.codec .text).RoundTrips (fun r =>
      r.metadata.length < UInt64.size ∧ r.metadata.byteSize < UInt64.size ∧
        r.metadata.stamp.createdAt.isValid = true) := by
  refine ⟨fun s h => ?_, Metadata.faithful_codec.roundTrips, ?_⟩
  · have hdecode : ∀ ms document, s.GivenBy ms → IsDocument (SpellsObject ms) document →
        Stats.codec.decode document = .ok s := fun ms document hms hdocument =>
      decode_of_reads (fun cs hcs => hms.reads_object h.timestamp hcs) hdocument
    refine ⟨?_, ⟨s.written, s.write_codec, s.nodup_keys_written, ?_, ?_⟩, hdecode⟩
    · exact hdecode _ _ (Stats.givenBy_written h)
        (isDocument_compact (spellsObject_chars s.written))
    all_goals
      rw [Stats.keys_written]
      cases s.memory.isSome <;> cases s.liveTasks.isSome <;> decide
  · have hrecord := Record.faithful_codec Codec.faithful_text
    exact (hrecord.of_iff fun r => by rw [true_and, wordLimit]).roundTrips

/-- Statistics at half of a leap second, whose counts do not add up and are named like members. -/
def oddStats : Stats where
  tally := ⟨⟨[("memory", 1), ("total", 2)], by decide⟩, 7⟩
  memory := none
  liveTasks := some 3
  timestamp := ⟨2016, 12, 31, 23, 59, 59, 1500000000⟩

/-- The counts of these statistics, in another order than they are written in. -/
def oddCountsText : List Char := '\x7b' :: (quote "total" ++ ':' :: '2' :: ',' ::
  (quote "memory" ++ [':', '1', '\x7d']))

/-- Members that give these statistics, in another order than they are written in. -/
def oddMembers : List (String × List Char) :=
  [("live_tasks", ['3']), ("note", quote "x"), ("memory", nullChars),
    ("timestamp", quote "2016-12-31T23:59:60.500Z"), ("total", ['7']),
    ("categories", oddCountsText)]

theorem oddStats_fits : oddStats.Fits where
  counts := by decide
  total := by decide
  memory := fun _ hm => absurd hm (Option.not_mem_none _)
  liveTasks := by decide
  timestamp := by decide

theorem oddMembers_givenBy : oddStats.GivenBy oddMembers where
  categories := by
    have hcounts : SpellsCounts oddStats.tally.counts oddCountsText :=
      ⟨[("total", 2), ("memory", 1)], by decide, by decide, _,
        .first isBlanks_nil (spellsText_quote "total") isBlanks_nil isBlanks_nil <|
          .next isBlanks_nil isBlanks_nil (spellsText_quote "memory") isBlanks_nil isBlanks_nil <|
          .close isBlanks_nil, rfl⟩
    exact .cons hcounts .nil
  total := .cons ⟨by decide, by decide⟩ .nil
  memory := .null
  liveTasks := .present ⟨by decide, by decide⟩
  timestamp := by
    have htext : oddStats.timestamp.text = "2016-12-31T23:59:60.500Z" := by decide +kernel
    exact .cons (htext ▸ spellsText_quote _) .nil
  others p hp hkey := by
    simp only [oddMembers, List.mem_cons, List.not_mem_nil, or_false] at hp
    obtain rfl | rfl | rfl | rfl | rfl | rfl := hp
    case inr.inl => exact .inl ⟨"x", spellsText_quote "x"⟩
    all_goals exact absurd (by decide) hkey

theorem statistics_and_records_round_trip_oddStats :
    Stats.codec.decode (Stats.codec.encode oddStats) = .ok oddStats ∧
    Stats.codec.decode ("\x7b\"live_tasks\":3, \"note\":\"x\", \"memory\":null, "
      ++ "\"timestamp\":\"2016-12-31T23:59:60.500Z\", \"total\":7, "
      ++ "\"categories\":\x7b\"total\":2,\"memory\":1\x7d\x7d") = .ok oddStats := by
  obtain ⟨hencode, -, hdecode⟩ := statistics_and_records_round_trip.1 oddStats oddStats_fits
  have hspace : IsBlanks [' '] := by simp [IsBlanks, isBlank]
  have hobject : SpellsObject oddMembers _ :=
    ⟨_, .first isBlanks_nil (spellsText_quote "live_tasks") isBlanks_nil isBlanks_nil <|
      .next isBlanks_nil hspace (spellsText_quote "note") isBlanks_nil isBlanks_nil <|
      .next isBlanks_nil hspace (spellsText_quote "memory") isBlanks_nil isBlanks_nil <|
      .next isBlanks_nil hspace (spellsText_quote "timestamp") isBlanks_nil isBlanks_nil <|
      .next isBlanks_nil hspace (spellsText_quote "total") isBlanks_nil isBlanks_nil <|
      .next isBlanks_nil hspace (spellsText_quote "categories") isBlanks_nil isBlanks_nil <|
      .close isBlanks_nil, rfl⟩
  exact ⟨hencode, hdecode oddMembers _ oddMembers_givenBy
    ⟨[], _, [], isBlanks_nil, hobject, isBlanks_nil, by decide +kernel⟩⟩

end EmojiCatalog
