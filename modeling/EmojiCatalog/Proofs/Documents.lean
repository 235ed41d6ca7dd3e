import EmojiCatalog.Documents
import EmojiCatalog.Proofs.Json.Record
/-!
Documents that are read back as they were written.

Queries, settings, tallies, readings of the memory and tallies of workers are records of texts,
words, truth values, options and maps, so their codecs are faithful: every value whose numbers are
words is read back from its document, and every document that is read at all, in whichever form, is
that of such a value (`documents_round_trip`).
-/

namespace EmojiCatalog

open Json

/-! ### Faithful documents -/

theorem Query.faithful_codec : codec.Faithful fun q => q.limit < wordLimit := by
  have hrecord : codec.Faithful _ := Fields.Faithful.record
    (.required Codec.faithful_text rfl <|
      .optional Codec.faithful_text (fun s _ => Value.isPresent_text s) rfl <|
      .optional Codec.faithful_text (fun s _ => Value.isPresent_text s) rfl <|
      .required Codec.faithful_word rfl Fields.faithful_nil)
    (fun _ => rfl) fun _ => rfl
  exact hrecord.of_iff fun q => by simp only [implies_true, and_true, true_and]

theorem Config.faithful_codec : codec.Faithful fun c =>
    c.batchSize < wordLimit ∧ c.queryLimit < wordLimit := by
  have hrecord : codec.Faithful _ := Fields.Faithful.record
    (.withDefault Codec.faithful_text trivial rfl <|
      .withDefault Codec.faithful_word (by decide) rfl <|
      .withDefault Codec.faithful_text trivial rfl <|
      .withDefault Codec.faithful_word (by decide) rfl Fields.faithful_nil)
    (fun _ => rfl) fun _ => rfl
  exact hrecord.of_iff fun c => by simp only [and_true, true_and]

theorem Tally.faithful_codec : codec.Faithful fun t =>
    (∀ n ∈ t.counts.values, n < wordLimit) ∧ t.total < wordLimit := by
  have hrecord : codec.Faithful _ := Fields.Faithful.record
    (.required Codec.faithful_word.map rfl <|
      .required Codec.faithful_word rfl Fields.faithful_nil)
    (fun _ => rfl) fun _ => rfl
  exact hrecord.of_iff fun t => by simp only [and_true]

theorem MemoryUsage.faithful_codec : codec.Faithful fun m =>
    m.rssBytes < wordLimit ∧ m.virtualBytes < wordLimit := by
  have hrecord : codec.Faithful _ := Fields.Faithful.record
    (.required Codec.faithful_word rfl <|
      .required Codec.faithful_word rfl Fields.faithful_nil)
    (fun _ => rfl) fun _ => rfl
  exact hrecord.of_iff fun m => by simp only [and_true]

theorem WorkerOutcome.faithful_codec : codec.Faithful fun o =>
    o.workerId < wordLimit ∧ o.queriesRun < wordLimit ∧ o.successCount < wordLimit ∧
      o.errorCount < wordLimit := by
  have hrecord : codec.Faithful _ := Fields.Faithful.record
    (.required Codec.faithful_word rfl <| .required Codec.faithful_word rfl <|
      .required Codec.faithful_word rfl <| .required Codec.faithful_word rfl <|
      .required Codec.faithful_flag rfl Fields.faithful_nil)
    (fun _ => rfl) fun _ => rfl
  exact hrecord.of_iff fun o => by simp only [and_true]

/-! ### Round trips -/

/-- Every query, every settings, every tally, every reading of the memory and every tally of a
worker whose numbers are words of 64 bits is read back from its own document.  Whatever is read from
a document of any form is such a value, and is therefore read back from its own document too. -/
theorem documents_round_trip :
    Query.codec.RoundTrips (fun q => q.limit < UInt64.size) ∧
    Config.codec.RoundTrips
      (fun c => c.batchSize < UInt64.size ∧ c.queryLimit < UInt64.size) ∧
    Tally.codec.RoundTrips
      (fun t => (∀ n ∈ t.counts.values, n < UInt64.size) ∧ t.total < UInt64.size) ∧
    MemoryUsage.codec.RoundTrips
      (fun m => m.rssBytes < UInt64.size ∧ m.virtualBytes < UInt64.size) ∧
    WorkerOutcome.codec.RoundTrips
      (fun o => o.workerId < UInt64.size ∧ o.queriesRun < UInt64.size ∧
        o.successCount < UInt64.size ∧ o.errorCount < UInt64.size) :=
  ⟨Query.faithful_codec.roundTrips, Config.faithful_codec.roundTrips,
    Tally.faithful_codec.roundTrips, MemoryUsage.faithful_codec.roundTrips,
    WorkerOutcome.faithful_codec.roundTrips⟩

/-- A query whose text has quotes, a control character and a character beyond 16 bits. -/
def oddQuery : Query where
  text := "say \"hi\"\x01 😀"
  subcategory := some ""
  limit := 18446744073709551615

/-- A query read from an array, and a reading of the memory read from an object with another member
between its own, are read back from their own documents. -/
theorem documents_round_trip_oddForms :
    Query.codec.decode
        "[\"say \\\"hi\\\"\\u0001 \\ud83d\\ude00\", null, \"\", 18446744073709551615]"
        = .ok oddQuery ∧
      Query.codec.decode (Query.codec.encode oddQuery) = .ok oddQuery ∧
    MemoryUsage.codec.decode "\x7b\"virtual_bytes\": 0, \"swap\": [null], \"rss_bytes\": 7\x7d"
        = .ok ⟨7, 0⟩ ∧
      MemoryUsage.codec.decode (MemoryUsage.codec.encode ⟨7, 0⟩) = .ok ⟨7, 0⟩ := by
  have harray : Query.codec.decode
      "[\"say \\\"hi\\\"\\u0001 \\ud83d\\ude00\", null, \"\", 18446744073709551615]"
      = .ok oddQuery := by decide +kernel
  have hobject : MemoryUsage.codec.decode
      "\x7b\"virtual_bytes\": 0, \"swap\": [null], \"rss_bytes\": 7\x7d" = .ok ⟨7, 0⟩ := by
    decide +kernel
  exact ⟨harray, (documents_round_trip.1.2 _ _ harray).2, hobject,
    (documents_round_trip.2.2.2.1.2 _ _ hobject).2⟩

end EmojiCatalog
