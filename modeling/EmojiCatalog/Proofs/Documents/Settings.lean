import EmojiCatalog.Documents
import EmojiCatalog.Proofs.Json.Assembly
import Mathlib.Data.List.Infix
/-!
Settings read from documents that leave some of them out.

A document gives some of the settings and leaves the others at their defaults.  `Config.Changes` are
the settings given, and `GivenBy` says which members of an object give them: for every setting at
most one, with a text of its type, and any others with any values.  What is read is the default with
these changes applied (`changes_replace_defaults`), in whatever order the members stand; and an
array of the first few settings is read as the object that gives just these.
-/

namespace EmojiCatalog.Config

open Json

/-- The settings that a document gives. -/
structure Changes where
  sourceName : Option String := none
  batchSize : Option Nat := none
  producerName : Option String := none
  queryLimit : Option Nat := none

/-- The default settings with those that are given in their place. -/
def Changes.applied (c : Changes) : Config :=
  let default : Config := {}
  { sourceName := c.sourceName.getD default.sourceName
    batchSize := c.batchSize.getD default.batchSize
    producerName := c.producerName.getD default.producerName
    queryLimit := c.queryLimit.getD default.queryLimit }

/-- The keys of the settings, in order. -/
def keys : List String := ["source_name", "batch_size", "producer_name", "query_limit"]

/-- The members give the changes: each setting once if it is changed and not at all otherwise. -/
structure Changes.GivenBy (c : Changes) (ms : List (String × List Char)) : Prop where
  sourceName : List.Forall₂ SpellsText c.sourceName.toList (textsUnder "source_name" ms)
  batchSize : List.Forall₂ SpellsWord c.batchSize.toList (textsUnder "batch_size" ms)
  producerName : List.Forall₂ SpellsText c.producerName.toList (textsUnder "producer_name" ms)
  queryLimit : List.Forall₂ SpellsWord c.queryLimit.toList (textsUnder "query_limit" ms)
  others : ∀ p ∈ ms, p.1 ∉ keys → IsValue p.2

variable {c : Changes} {ms : List (String × List Char)} {cs : List Char}

/-! ### Objects -/

theorem Changes.GivenBy.reads_object (h : c.GivenBy ms) (hcs : SpellsObject ms cs) :
    Reads codec.read c.applied cs := by
  have htext : ∀ {o : Option String} {vs : List (List Char)},
      List.Forall₂ SpellsText o.toList vs → List.Forall₂ (Reads Codec.text.read) o.toList vs :=
    fun hvs => hvs.imp fun _ _ => SpellsText.reads
  have hword : ∀ {o : Option Nat} {vs : List (List Char)},
      List.Forall₂ SpellsWord o.toList vs → List.Forall₂ (Reads Codec.word.read) o.toList vs :=
    fun hvs => hvs.imp fun _ _ => SpellsWord.reads
  have hread : Reads codec.read _ cs := Fields.Fills.reads_record
    (.withDefault rfl (htext h.sourceName) <| .withDefault rfl (hword h.batchSize) <|
      .withDefault rfl (htext h.producerName) <| .withDefault rfl (hword h.queryLimit) <|
      Fields.fills_nil ms)
    (fun p hp hunknown => h.others p hp (Fields.not_mem_of_not_knows (by decide) hunknown)) hcs
  exact hread

/-! ### Arrays -/

theorem Changes.GivenBy.reads_array (h : c.GivenBy ms) (hms : ms.map Prod.fst <+: keys)
    (hcs : SpellsArray (ms.map Prod.snd) cs) : Reads codec.read c.applied cs := by
  have hkeys : keys.Nodup := by decide
  have hlength : (ms.map Prod.snd).length ≤ 4 := by
    have hle := hms.length_le
    rwa [List.length_map] at hle ⊢
  obtain ⟨hsource, hbatch, hproducer, hlimit, -⟩ := h
  rw [textsUnder_of_isPrefix hkeys hms (i := 0) rfl, List.drop_zero] at hsource
  rw [textsUnder_of_isPrefix hkeys hms (i := 1) rfl] at hbatch
  rw [textsUnder_of_isPrefix hkeys hms (i := 2) rfl] at hproducer
  rw [textsUnder_of_isPrefix hkeys hms (i := 3) rfl] at hlimit
  -- the items are taken one after the other
  generalize ms.map Prod.snd = vs at *
  have hread : Reads codec.read _ cs := Fields.Lists.reads_record
    (.withDefault (hsource.imp fun _ _ => SpellsText.reads) <|
      .withDefault (hbatch.imp fun _ _ => SpellsWord.reads) <|
      .withDefault (by rw [List.drop_drop]; exact hproducer.imp fun _ _ => SpellsText.reads) <|
      .withDefault (by
        rw [List.drop_drop, List.drop_drop]
        exact hlimit.imp fun _ _ => SpellsWord.reads) <| by
      rw [List.drop_drop, List.drop_drop, List.drop_drop, List.drop_eq_nil_of_le hlength]
      exact Fields.lists_nil) hcs
  exact hread

/-! ### Whole documents -/

/-- A document that gives some of the settings is read as the default settings with these in their
place.  The order of its members does not matter, nor do the other members.  The same is read from
the array of the first few settings. -/
theorem changes_replace_defaults (c : Changes) (ms : List (String × List Char))
    (h : c.GivenBy ms) :
    (∀ s, IsDocument (SpellsObject ms) s → codec.decode s = .ok c.applied) ∧
    (∀ ms', (ms'.filter (·.1 ∈ keys)).Perm (ms.filter (·.1 ∈ keys)) →
      (∀ p ∈ ms', p.1 ∉ keys → IsValue p.2) →
      ∀ s, IsDocument (SpellsObject ms') s → codec.decode s = .ok c.applied) ∧
    (∀ k ≤ 4, ms.map Prod.fst = keys.take k →
      ∀ s, IsDocument (SpellsArray (ms.map Prod.snd)) s → codec.decode s = .ok c.applied) := by
  refine ⟨fun s hs => decode_of_reads (fun cs hcs => h.reads_object hcs) hs, ?_, ?_⟩
  · intro ms' hperm hothers s hs
    have h' : c.GivenBy ms' := by
      constructor
      · rw [textsUnder_eq_of_perm (by decide) h.sourceName hperm]; exact h.sourceName
      · rw [textsUnder_eq_of_perm (by decide) h.batchSize hperm]; exact h.batchSize
      · rw [textsUnder_eq_of_perm (by decide) h.producerName hperm]; exact h.producerName
      · rw [textsUnder_eq_of_perm (by decide) h.queryLimit hperm]; exact h.queryLimit
      · exact hothers
    exact decode_of_reads (fun cs hcs => h'.reads_object hcs) hs
  · intro k _ hms s hs
    have hprefix : ms.map Prod.fst <+: keys := hms ▸ List.take_prefix k keys
    exact decode_of_reads (fun cs hcs => h.reads_array hprefix hcs) hs

/-- The first two settings. -/
def firstMembers : List (String × List Char) :=
  [("source_name", quote "emoji"), ("batch_size", ['7'])]

theorem firstMembers_givenBy :
    Changes.GivenBy { sourceName := some "emoji", batchSize := some 7 } firstMembers where
  sourceName := .cons (spellsText_quote "emoji") .nil
  batchSize := .cons ⟨by decide, by decide⟩ .nil
  producerName := .nil
  queryLimit := .nil
  others p hp hkey := by
    simp only [firstMembers, List.mem_cons, List.not_mem_nil, or_false] at hp
    obtain rfl | rfl := hp
    all_goals exact absurd (by decide) hkey

/-- The first two settings as an array, and in another order with another member between them. -/
theorem changes_replace_defaults_firstMembers :
    codec.decode "[\"emoji\",7]" = .ok { sourceName := "emoji", batchSize := 7 } ∧
    codec.decode "\x7b\"batch_size\":7, \"other\" : [1e5, null], \"source_name\":\"emoji\"\x7d "
      = .ok { sourceName := "emoji", batchSize := 7 } := by
  obtain ⟨-, hobjects, harrays⟩ := changes_replace_defaults
    { sourceName := some "emoji", batchSize := some 7 } firstMembers firstMembers_givenBy
  have hspace : IsBlanks [' '] := by simp [IsBlanks, isBlank]
  constructor
  · refine harrays 2 (by decide) rfl _ ⟨[], _, [], isBlanks_nil,
      ⟨_, .first isBlanks_nil <| .next isBlanks_nil isBlanks_nil <| .close isBlanks_nil, rfl⟩,
      isBlanks_nil, by decide +kernel⟩
  · have hinteger : IsInteger ['1'] :=
      .digits rfl (by decide) fun _ hd => absurd hd List.not_mem_nil
    have hdigits : IsDigits ['5'] := ⟨by decide, by simp⟩
    have hnumber : IsValue ['1', 'e', '5'] := .scalar <| .numeral <|
      .intro (.inl rfl) hinteger .absent (.present (.inl rfl) (.inl rfl) hdigits)
    have hrest : IsPart .moreItems [',', ' ', 'n', 'u', 'l', 'l', ']'] :=
      .nextItem isBlanks_nil hspace (.scalar .null) (.closeArray isBlanks_nil)
    have harray : IsValue ['[', '1', 'e', '5', ',', ' ', 'n', 'u', 'l', 'l', ']'] :=
      .array isBlanks_nil hnumber hrest
    have hobject : SpellsObject [("batch_size", ['7']),
        ("other", ['[', '1', 'e', '5', ',', ' ', 'n', 'u', 'l', 'l', ']']),
        ("source_name", quote "emoji")] _ :=
      ⟨_, .first isBlanks_nil (spellsText_quote "batch_size") isBlanks_nil isBlanks_nil <|
        .next isBlanks_nil hspace (spellsText_quote "other") hspace hspace <|
        .next isBlanks_nil hspace (spellsText_quote "source_name") isBlanks_nil isBlanks_nil <|
        .close isBlanks_nil, rfl⟩
    refine hobjects _ (by decide) (fun p hp hkey => ?_) _
      ⟨[], _, [' '], isBlanks_nil, hobject, hspace, by decide +kernel⟩
    simp only [List.mem_cons, List.not_mem_nil, or_false] at hp
    obtain rfl | rfl | rfl := hp
    · exact absurd (by decide) hkey
    · exact harray
    · exact absurd (by decide) hkey

end EmojiCatalog.Config
