import EmojiCatalog.Proofs.Catalog.Built
import EmojiCatalog.Proofs.Digest.Agreement
import EmojiCatalog.Proofs.Run.Conservation
import EmojiCatalog.Proofs.Text.Lowercase
/-!
What a delivered record says about its entry.

The records taken from a run are the first records of its entries (`Conserved.taken_isPrefix`), so a
delivered record is the one made of the entry at its own place.  All of it but the stamp and the
payload is a function of the entry's item and category and of the producer's name.  What it says
about the item is collected in `Metadata.Describes`: how many characters the item has and how many
bytes, which bound one another because a character takes one to four bytes, and the digest of those
bytes as its standard defines it.
-/

namespace EmojiCatalog

/-! ### Characters and bytes -/

section Sizes

variable (s : String)

/-- The size of a text is that of its characters in UTF-8. -/
theorem utf8ByteSize_eq_sumOf : s.utf8ByteSize = sumOf Char.utf8Size s.toList := by
  rw [Text.sumOf_utf8Size, String.ofList_toList]

theorem length_le_sumOf_utf8Size (cs : List Char) : cs.length ≤ sumOf Char.utf8Size cs := by
  induction cs with
  | nil => exact Nat.le_refl 0
  | cons c cs ih =>
    have hc := c.utf8Size_pos
    rw [List.length_cons, sumOf_cons]
    omega

theorem sumOf_utf8Size_le (cs : List Char) : sumOf Char.utf8Size cs ≤ 4 * cs.length := by
  induction cs with
  | nil => exact Nat.le_refl 0
  | cons c cs ih =>
    have hc := c.utf8Size_le_four
    rw [List.length_cons, sumOf_cons]
    omega

theorem length_le_utf8ByteSize : s.toList.length ≤ s.utf8ByteSize := by
  rw [utf8ByteSize_eq_sumOf]
  exact length_le_sumOf_utf8Size s.toList

theorem utf8ByteSize_le : s.utf8ByteSize ≤ 4 * s.toList.length := by
  rw [utf8ByteSize_eq_sumOf]
  exact sumOf_utf8Size_le s.toList

end Sizes

/-! ### Metadata -/

namespace Metadata

/-- What metadata say about an item, whoever made them and whenever. -/
structure Describes (m : Metadata) (item : String) : Prop where
  length_eq : m.length = item.toList.length
  byteSize_eq : m.byteSize = item.toUTF8.size
  length_le : m.length ≤ m.byteSize
  byteSize_le : m.byteSize ≤ 4 * m.length
  length_eq_zero_iff : m.length = 0 ↔ item = ""
  byteSize_eq_zero_iff : m.byteSize = 0 ↔ item = ""
  hash_eq : m.contentHash = Digest.Standard.hexDigest item
  length_hash : m.contentHash.length = 64
  mem_hash : ∀ ch ∈ m.contentHash.toList, ch ∈ "0123456789abcdef".toList

theorem describes_ofItem (item producedBy : String) (stamp : Stamp) :
    (ofItem item producedBy stamp).Describes item where
  length_eq := rfl
  byteSize_eq := rfl
  length_le := length_le_utf8ByteSize item
  byteSize_le := utf8ByteSize_le item
  length_eq_zero_iff := List.length_eq_zero_iff.trans String.toList_eq_nil_iff
  byteSize_eq_zero_iff := String.utf8ByteSize_eq_zero_iff
  hash_eq := Digest.ofText_eq item
  length_hash := Digest.length_ofText item
  mem_hash _ h := Digest.mem_hexDigits_of_mem_ofText h

/-- Two descriptions of one item agree on everything but who made them and when. -/
theorem Describes.agree {m m' : Metadata} {item : String} (h : m.Describes item)
    (h' : m'.Describes item) :
    m.length = m'.length ∧ m.byteSize = m'.byteSize ∧ m.contentHash = m'.contentHash :=
  ⟨h.length_eq.trans h'.length_eq.symm, h.byteSize_eq.trans h'.byteSize_eq.symm,
    h.hash_eq.trans h'.hash_eq.symm⟩

end Metadata

/-! ### Delivered records -/

namespace Run

variable {α : Type} {make : Nat → Entry → α × Stamp} {producedBy : String} {entries : List Entry}
variable {t : Trace α}

/-- The record of an entry: all that it says is the entry's, the call's or the producer's. -/
structure Renders (x : Record α) (e : Entry) (made : α × Stamp) (producedBy : String) : Prop where
  item_eq : x.item = e.item
  category_eq : x.category = e.category
  payload_eq : x.payload = made.1
  stamp_eq : x.metadata.stamp = made.2
  producedBy_eq : x.metadata.producedBy = producedBy
  describes : x.metadata.Describes e.item

theorem renders_recordAt (make : Nat → Entry → α × Stamp) (producedBy : String) (n : Nat)
    (e : Entry) :
    Renders (recordAt make producedBy n e) e (make n e) producedBy :=
  ⟨rfl, rfl, rfl, rfl, rfl, Metadata.describes_ofItem e.item producedBy (make n e).2⟩

/-- The record taken at some place is that of the entry at this place. -/
theorem Conserved.taken_getElem? (h : Conserved (recordsOf make producedBy entries) t) {i : Nat}
    {x : Record α} (hx : t.taken[i]? = some x) :
    ∃ e, entries[i]? = some e ∧ x = recordAt make producedBy i e := by
  have hpre : t.taken <+: recordsOf make producedBy entries :=
    h.taken_isPrefix.trans (List.take_prefix _ _)
  obtain ⟨later, hrecords⟩ := hpre
  have hi : i < t.taken.length := (List.getElem?_eq_some_iff.mp hx).1
  have hrecord : (recordsOf make producedBy entries)[i]? = some x := by
    rw [← hrecords, List.getElem?_append_left hi, hx]
  rw [recordsOf, List.getElem?_mapIdx, Option.map_eq_some_iff] at hrecord
  obtain ⟨e, he, hx⟩ := hrecord
  exact ⟨e, he, hx.symm⟩

/-- The contents of a delivered record are a function of its entry, which is the one at the
record's place.  The measures of the item are the same in all records of an equal item, of this run
or of any other. -/
theorem record_describes_entry (c : Catalog) (config : Config) (token : Token)
    (make : Nat → Entry → α × Stamp) (acts : List Act) {i : Nat} {x : Record α}
    (hx : ((Trace.start c config token).after make acts).taken[i]? = some x) :
    ∃ e, c.entries[i]? = some e ∧
      Renders x e (make i e) config.producerName ∧
      ∀ {β : Type} (c' : Catalog) (config' : Config) (token' : Token)
        (make' : Nat → Entry → β × Stamp) (acts' : List Act) {j : Nat} {e' : Entry} {y : Record β},
        ((Trace.start c' config' token').after make' acts').taken[j]? = some y →
        c'.entries[j]? = some e' → e'.item = e.item →
          x.metadata.length = y.metadata.length ∧
          x.metadata.byteSize = y.metadata.byteSize ∧
          x.metadata.contentHash = y.metadata.contentHash := by
  have hsound := (Sound.start make c config token).after acts
  obtain ⟨e, he, rfl⟩ := hsound.conserved.taken_getElem? hx
  have hrenders := renders_recordAt make config.producerName i e
  refine ⟨e, he, hrenders, ?_⟩
  intro β c' config' token' make' acts' j e' y hy he' hitem
  have hsound' := (Sound.start make' c' config' token').after acts'
  obtain ⟨e'', he'', rfl⟩ := hsound'.conserved.taken_getElem? hy
  obtain rfl : e' = e'' := Option.some.inj (he'.symm.trans he'')
  have hrenders' := renders_recordAt make' config'.producerName j e'
  exact hrenders.describes.agree (hitem ▸ hrenders'.describes)

/-- The acts of a run whose first record is received. -/
def receiveFirst : List Act := List.replicate 5 .produce ++ [.serve .tryReceive]

/-- Such a run of two entries. -/
def firstRun : Trace Unit :=
  (Trace.start Catalog.twoFaces {} Tokens.root).after (fun _ _ => ((), default)) receiveFirst

theorem record_describes_entry_firstRun :
    ∃ x, firstRun.taken[0]? = some x ∧ x.item = "😀" ∧ x.metadata.producedBy = "StreamPipeline" ∧
      x.metadata.length = 1 ∧ x.metadata.byteSize = 4 ∧
      x.metadata.contentHash = Digest.Standard.hexDigest "😀" := by
  have htaken : (firstRun.taken[0]?).isSome := by decide +kernel
  obtain ⟨x, hx⟩ := Option.isSome_iff_exists.mp htaken
  rw [firstRun] at hx ⊢
  obtain ⟨e, he, hrenders, -⟩ := record_describes_entry Catalog.twoFaces {} Tokens.root
    (fun _ _ => ((), default)) receiveFirst hx
  obtain rfl : e = ⟨"faces", "happy", "😀", 0⟩ := (Option.some.inj he).symm
  exact ⟨x, hx, hrenders.item_eq, hrenders.producedBy_eq, hrenders.describes.length_eq,
    hrenders.describes.byteSize_eq, hrenders.describes.hash_eq⟩

end Run

end EmojiCatalog
