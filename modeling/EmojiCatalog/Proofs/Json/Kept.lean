import EmojiCatalog.Proofs.Json.Assembly
/-!
Members that are kept as values.

A record with a second group of members keeps the members that its first group does not know as
values, in the order in which they stand.  `ReadsAs` says which value a text is kept as, and
`Fills.reads_merged` that the record is read from every object whose members fill the first group,
if the second can be made of the values that are kept.

The text that an object is written as is one of its texts (`spellsObject_chars`), so what is read
from all texts is read from the written one.
-/

namespace EmojiCatalog.Json

variable {α β γ : Type} {cs : List Char} {ms : List (String × List Char)} {depth : Nat}

/-! ### Values -/

theorem SpellsText.reads_value {s : String} (h : SpellsText s cs) :
    Reads (readValue depth) (.text s) cs := by
  obtain ⟨body, rfl, hread⟩ := h.exists_readText
  refine ⟨⟨_, _, rfl, rfl, by decide⟩, fun bs rest hbs _ => ?_⟩
  rw [readValue, List.cons_append, skipBlanks_append_cons hbs rfl]
  show (readText (body ++ rest)).map _ = _
  rw [hread]
  rfl

theorem SpellsWord.reads_value {n : Nat} (h : SpellsWord n cs) :
    Reads (readValue depth) (.whole n) cs := by
  obtain ⟨hn, rfl⟩ := h
  obtain ⟨c, ds, hds, hc, hblank, hclose⟩ := beginsItem_toDigits n
  refine ⟨⟨c, ds, hds, hblank, hclose⟩, fun bs rest hbs hrest => ?_⟩
  have hread := readNumeral_toDigits hn hrest
  have hne : ∀ d : Char, d.isDigit = false → c ≠ d := by
    rintro d hd rfl
    rw [hd] at hc
    cases hc
  rw [hds, List.cons_append] at hread ⊢
  rw [readValue, skipBlanks_append_cons hbs hblank]
  split
  next heq => cases heq
  next heq => exact absurd (List.cons.inj heq).1 (hne _ rfl)
  next heq => exact absurd (List.cons.inj heq).1 (hne _ rfl)
  next heq => exact absurd (List.cons.inj heq).1 (hne _ rfl)
  next heq => exact absurd (List.cons.inj heq).1 (hne _ rfl)
  next heq => exact absurd (List.cons.inj heq).1 (hne _ rfl)
  next heq => exact absurd (List.cons.inj heq).1 (hne _ rfl)
  next heq =>
    obtain ⟨rfl, rfl⟩ := List.cons.inj heq
    rw [hc, Bool.or_true, if_pos rfl, hread]
    rfl

/-- A member is kept under its key as the value that its text is read as. -/
def ReadsAs (depth : Nat) (v : String × Value) (p : String × List Char) : Prop :=
  v.1 = p.1 ∧ Reads (readValue depth) v.2 p.2

/-- An object is read as a value with the values of its members in their order. -/
theorem reads_value_object {vs : List (String × Value)} (h : List.Forall₂ (ReadsAs depth) vs ms)
    (hcs : SpellsObject ms cs) : Reads (readValue (depth + 1)) (.object vs) cs := by
  obtain ⟨ds, hds, rfl⟩ := hcs
  refine ⟨⟨_, _, rfl, rfl, by decide⟩, fun bs rest hbs _ => ?_⟩
  have hgathers : ∀ kept, Gathers (fun key members cs => do
      let r ← readValue depth (← readColon cs)
      return (members ++ [(key, r.1)], r.2)) kept ms (kept ++ vs) := by
    clear hds
    induction h with
    | nil => exact fun kept => (List.append_nil kept).symm ▸ .nil kept
    | @cons v p vs ms hv _ ih =>
      obtain ⟨key, value⟩ := v
      obtain ⟨rfl, hread⟩ := hv
      intro kept
      have hlater := ih (kept ++ [(p.1, value)])
      rw [List.append_assoc, List.singleton_append] at hlater
      refine .cons (fun bs bs' rest hbs hbs' hrest => ?_) hlater
      simp only [readColon_append hbs, hread.read_append bs' rest hbs' hrest, bind, Except.bind]
      rfl
  have hread := (hgathers []).readObject hds rest
  rw [readValue, List.cons_append, skipBlanks_append_cons hbs rfl]
  show (readObject _ [] (ds ++ rest)).map _ = _
  exact congrArg (Except.map _) hread

/-- What a member's text is kept as is the only value that it is kept as. -/
theorem ReadsAs.unique {v w : String × Value} {p : String × List Char} (hv : ReadsAs depth v p)
    (hw : ReadsAs depth w p) : v = w :=
  Prod.ext (hv.1.trans hw.1.symm) (hv.2.unique hw.2)

/-! ### Two groups of members -/

namespace Fields

/-- The members that the record does not know, in the order in which they stand. -/
def unknown (fields : Fields α) (ms : List (String × List Char)) : List (String × List Char) :=
  ms.filter fun p => !fields.knows p.1

theorem unknown_cons_of_knows {fields : Fields α} {key : String} (h : fields.knows key = true)
    (v : List Char) (ms : List (String × List Char)) :
    fields.unknown ((key, v) :: ms) = fields.unknown ms :=
  List.filter_cons_of_neg (by simp [h])

theorem unknown_cons_of_not_knows {fields : Fields α} {key : String}
    (h : fields.knows key = false) (v : List Char) (ms : List (String × List Char)) :
    fields.unknown ((key, v) :: ms) = (key, v) :: fields.unknown ms :=
  List.filter_cons_of_pos (by simp [h])

/-- Of the members of an unknown key none are known. -/
theorem filter_unknown {fields : Fields α} {key : String} (h : fields.knows key = false)
    (ms : List (String × List Char)) :
    (fields.unknown ms).filter (·.1 = key) = ms.filter (·.1 = key) := by
  rw [unknown, List.filter_filter]
  refine List.filter_congr fun p _ => ?_
  by_cases hp : p.1 = key
  · simp [hp, h]
  · simp [hp]

/-- A member that stands once is kept once. -/
theorem filter_kept {fields : Fields α} {vs : List (String × Value)} {key : String} {v : List Char}
    {value : Value} (hvs : List.Forall₂ (ReadsAs depth) vs (fields.unknown ms))
    (hkey : fields.knows key = false) (hv : textsUnder key ms = [v])
    (hread : Reads (readValue depth) value v) : vs.filter (·.1 = key) = [(key, value)] := by
  have hsame : ∀ w p, ReadsAs depth w p → ((w.1 = key) = (p.1 = key)) :=
    fun w p h => by rw [h.1]
  have hfiltered :
      List.Forall₂ (ReadsAs depth) (vs.filter (·.1 = key)) (ms.filter (·.1 = key)) := by
    rw [← filter_unknown hkey]
    exact List.rel_filter (fun {w p} h => by simp [hsame w p h]) hvs
  obtain ⟨p, hp, hpv⟩ := List.map_eq_singleton_iff.mp hv
  have hpkey : p.1 = key := by
    have hmem : p ∈ ms.filter (·.1 = key) := hp ▸ List.mem_singleton_self p
    exact of_decide_eq_true (List.mem_filter.mp hmem).2
  rw [hp] at hfiltered
  obtain ⟨w, ws, hw, hws, heq⟩ := List.forall₂_cons_right_iff.mp hfiltered
  rw [heq, List.forall₂_nil_right_iff.mp hws]
  exact congrArg (fun w => [w]) (hw.unique ⟨hpkey.symm, hpv ▸ hread⟩)

/-- The members that the record knows are read into its draft, and the others are kept. -/
theorem gathers_readMergedMember {fields : Fields α} {d d' : fields.Draft}
    {vs : List (String × Value)} (kept : List (String × Value))
    (h : Gathers fields.readKnown d (fields.known ms) d')
    (hvs : List.Forall₂ (ReadsAs Codec.depthLimit) vs (fields.unknown ms)) :
    Gathers (Codec.readMergedMember fields) (d, kept) ms (d', kept ++ vs) := by
  induction ms generalizing d kept vs with
  | nil =>
    cases h
    cases hvs
    exact (List.append_nil kept).symm ▸ .nil _
  | cons p ms ih =>
    obtain ⟨key, v⟩ := p
    cases hknows : fields.knows key with
    | true =>
      rw [known_cons_of_knows hknows] at h
      rw [unknown_cons_of_knows hknows] at hvs
      obtain ⟨read, hkey⟩ := Option.isSome_iff_exists.mp hknows
      cases h with
      | cons hfirst hlater =>
        refine .cons (fun bs bs' rest hbs hbs' hrest => ?_) (ih kept hlater hvs)
        have hread := hfirst bs bs' rest hbs hbs' hrest
        rw [readKnown, hkey] at hread
        replace hread : read d _ = _ := hread
        simp only [Codec.readMergedMember, hkey, hread]
        rfl
    | false =>
      rw [known_cons_of_not_knows hknows] at h
      rw [unknown_cons_of_not_knows hknows] at hvs
      cases hvs with
      | @cons v' _ vs _ hv hlater =>
        obtain ⟨key', value⟩ := v'
        obtain ⟨rfl, hread⟩ := hv
        have hkept := ih (kept ++ [(key', value)]) h hlater
        rw [List.append_assoc, List.singleton_append] at hkept
        refine .cons (fun bs bs' rest hbs hbs' hrest => ?_) hkept
        simp only [Codec.readMergedMember, knows_eq_false_iff.mp hknows, readColon_append hbs,
          hread.read_append bs' rest hbs' hrest, bind, Except.bind]
        rfl

/-- A record is read from every object whose members fill its first group and make the second. -/
theorem Fills.reads_merged {fields : Fields β} {y : β} {z : γ} {vs : List (String × Value)}
    {firstMembers : γ → List (String × Value)} {ofOthers? : List (String × Value) → Option γ}
    {toParts : α → γ × β} {ofParts : γ → β → α} (h : fields.Fills ms y)
    (hvs : List.Forall₂ (ReadsAs Codec.depthLimit) vs (fields.unknown ms))
    (hothers : ofOthers? vs = some z) (hcs : SpellsObject ms cs) :
    Reads (Codec.merged fields firstMembers ofOthers? toParts ofParts).read (ofParts z y) cs := by
  obtain ⟨d, hgathers, hcomplete⟩ := h
  obtain ⟨ds, hds, rfl⟩ := hcs
  refine ⟨⟨_, _, rfl, rfl, by decide⟩, fun bs rest hbs _ => ?_⟩
  have hread := (gathers_readMergedMember [] hgathers hvs).readObject hds rest
  rw [List.nil_append] at hread
  simp only [Codec.merged, List.cons_append, skipBlanks_append_cons hbs (c := '\x7b') rfl, hread,
    hcomplete, hothers, bind, Except.bind, orMismatch]
  rfl

end Fields

/-! ### Written objects -/

theorem spellsMembers_moreMembers (members : List (String × Value)) :
    SpellsMembers false (members.map fun p => (p.1, p.2.chars)) (Value.moreMembers members) := by
  induction members with
  | nil => exact .close isBlanks_nil
  | cons p members ih =>
    obtain ⟨k, v⟩ := p
    have hnext := SpellsMembers.next (v := v.chars) isBlanks_nil isBlanks_nil (spellsText_quote k)
      isBlanks_nil isBlanks_nil ih
    simpa only [Value.moreMembers, List.map_cons, List.append_assoc, List.cons_append,
      List.nil_append] using hnext

/-- The text that an object is written as is one of its texts. -/
theorem spellsObject_chars (members : List (String × Value)) :
    SpellsObject (members.map fun p => (p.1, p.2.chars)) (Value.object members).chars := by
  cases members with
  | nil => exact ⟨['\x7d'], .close isBlanks_nil, rfl⟩
  | cons p members =>
    obtain ⟨k, v⟩ := p
    have hfirst := SpellsMembers.first (v := v.chars) isBlanks_nil (spellsText_quote k) isBlanks_nil
      isBlanks_nil (spellsMembers_moreMembers members)
    refine ⟨_, hfirst, ?_⟩
    simp only [Value.chars, List.append_assoc, List.cons_append, List.nil_append]

theorem isDocument_compact {isValue : List Char → Prop} {v : Value} (h : isValue v.chars) :
    IsDocument isValue v.compact :=
  ⟨[], v.chars, [], isBlanks_nil, h, isBlanks_nil, by
    rw [Value.compact, String.toList_ofList, List.nil_append, List.append_nil]⟩

end EmojiCatalog.Json
