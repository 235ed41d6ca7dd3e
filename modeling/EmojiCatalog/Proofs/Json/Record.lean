import EmojiCatalog.Json.Record
import EmojiCatalog.Proofs.Json.Codec
/-!
Records that read back what they write.

`Fields.Faithful` says of the members of a record what `Codec.Faithful` says of a codec: the members
of a value that fits, read in the order in which they are written, make a draft that is completed to
the value; and what is completed from a draft, or read from an array, fits.  The drafts that can
come up while a text is read, with its members in any order and others between them, are those that
are `Kept` (`Fields.Keeps`).

A member in front of faithful members makes faithful members (`Fields.Faithful.cons`), unless it
takes the name of one of them; and faithful members make a faithful record
(`Fields.Faithful.record`).
-/

namespace EmojiCatalog.Json

variable {α β δ δ' : Type}

/-! ### Members one by one -/

/-- A reader that follows another one on its drafts absorbs what the other absorbs. -/
theorem Absorbs.map {member : String → δ → Reader δ} {member' : String → δ' → Reader δ'}
    {d d' : δ} {members : List (String × Value)} (f : δ → δ')
    (hmember : ∀ k d cs d' rest, member k d cs = .ok (d', rest) →
      member' k (f d) cs = .ok (f d', rest))
    (h : Absorbs member d members d') : Absorbs member' (f d) members (f d') := by
  induction h with
  | nil d => exact .nil (f d)
  | cons hfirst _ ih =>
    exact .cons (fun rest hrest => hmember _ _ _ _ _ (hfirst rest hrest)) ih

namespace Fields

/-- Reads what follows a key of the record, and refuses other keys. -/
def readKnown (fields : Fields α) (key : String) : fields.Draft → Reader fields.Draft :=
  (fields.member? key).getD fun _ _ => .error .mismatched

/-- What is read for a key of the record is read whatever is done about other keys. -/
theorem read_of_readKnown {fields : Fields α} {key : String} {d d' : fields.Draft}
    {cs rest : List Char} (unknown : fields.Draft → Reader fields.Draft)
    (h : fields.readKnown key d cs = .ok (d', rest)) :
    (fields.member? key).getD unknown d cs = .ok (d', rest) := by
  rw [readKnown] at h
  cases hkey : fields.member? key with
  | none => rw [hkey] at h; cases h
  | some read => rw [hkey] at h; exact h

/-- The drafts that are kept include the blank one, and what members turn them into, and are
completed to values that fit. -/
structure Keeps (fields : Fields α) (fits : α → Prop) (Kept : fields.Draft → Prop) : Prop where
  blank : Kept fields.blank
  member : ∀ key read d cs d' rest, fields.member? key = some read → Kept d →
    read d cs = .ok (d', rest) → Kept d'
  complete : ∀ d x, Kept d → fields.complete? d = some x → fits x

/-- The members of every value that fits are read back, and all that is read fits. -/
structure Faithful (fields : Fields α) (fits : α → Prop) : Prop where
  absorbs : ∀ x, fits x → ∃ draft,
    Absorbs fields.readKnown fields.blank (fields.members x) draft ∧
      fields.complete? draft = some x
  exists_keeps : ∃ Kept, fields.Keeps fits Kept
  fits_of_items : ∀ isFirst cs x rest, fields.items isFirst cs = .ok (x, rest) → fits x

theorem faithful_nil : nil.Faithful fun _ => True where
  absorbs _ _ := ⟨(), .nil (), rfl⟩
  exists_keeps := ⟨fun _ => True, trivial, fun _ _ _ _ _ _ _ _ _ => trivial, fun _ _ _ _ => trivial⟩
  fits_of_items _ _ _ _ _ := trivial

/-! ### A member in front of others -/

section Cons

variable {name : String} {c : Codec α} {missing : Default α} {rest : Fields β}
  {fits : α → Prop} {fitsRest : β → Prop}

theorem member?_cons_self :
    (cons name c missing rest).member? name = some fun draft cs =>
      (readMember c draft.1 cs).map fun p => ((some p.1, draft.2), p.2) :=
  if_pos rfl

theorem member?_cons_of_ne {key : String} (h : key ≠ name) :
    (cons name c missing rest).member? key = (rest.member? key).map fun read draft cs =>
      (read draft.2 cs).map fun p => ((draft.1, p.1), p.2) :=
  if_neg h

/-- The members after the first are read beside a draft of the first. -/
theorem readKnown_cons {key : String} {d d' : rest.Draft} {cs tail : List Char}
    (hname : rest.member? name = none) (found : Option α)
    (h : rest.readKnown key d cs = .ok (d', tail)) :
    (cons name c missing rest).readKnown key (found, d) cs = .ok ((found, d'), tail) := by
  rw [readKnown] at h
  cases hkey : rest.member? key with
  | none => rw [hkey] at h; cases h
  | some read =>
    have hne : key ≠ name := by
      rintro rfl
      rw [hname] at hkey
      cases hkey
    rw [hkey] at h
    replace h : read d cs = .ok (d', tail) := h
    rw [readKnown, member?_cons_of_ne hne, hkey]
    show (read d cs).map _ = _
    rw [h]
    rfl

theorem keeps_cons {Kept : rest.Draft → Prop} (hc : c.Faithful fits)
    (hkeeps : rest.Keeps fitsRest Kept) (hmissing : ∀ x ∈ missing.inObject, fits x) :
    (cons name c missing rest).Keeps (fun p => fits p.1 ∧ fitsRest p.2)
      fun draft => (∀ x ∈ draft.1, fits x) ∧ Kept draft.2 where
  blank := ⟨fun _ hx => absurd hx (Option.not_mem_none _), hkeeps.blank⟩
  member key read d cs d' tail hkey hd hread := by
    by_cases hname : key = name
    · subst hname
      rw [member?_cons_self] at hkey
      cases hkey
      obtain ⟨⟨x, cs'⟩, hx, heq⟩ := map_eq_ok_iff.mp hread
      cases heq
      refine ⟨fun y hy => ?_, hd.2⟩
      cases hy
      simp only [readMember] at hx
      split at hx
      next => cases hx
      next =>
        obtain ⟨cs'', -, hx⟩ := bind_eq_ok_iff.mp hx
        exact hc.fits_of_read _ _ _ hx
    · rw [member?_cons_of_ne hname] at hkey
      obtain ⟨read', hkey', rfl⟩ := Option.map_eq_some_iff.mp hkey
      obtain ⟨⟨d₂, cs'⟩, hread', heq⟩ := map_eq_ok_iff.mp hread
      cases heq
      exact ⟨hd.1, hkeeps.member _ _ _ _ _ _ hkey' hd.2 hread'⟩
  complete d p hd hp := by
    obtain ⟨x, hx, hp⟩ := Option.bind_eq_some_iff.mp hp
    obtain ⟨xs, hxs, hp⟩ := Option.bind_eq_some_iff.mp hp
    cases hp
    refine ⟨?_, hkeeps.complete _ _ hd.2 hxs⟩
    cases hfound : d.1 with
    | some y =>
      rw [hfound] at hx
      cases hx
      exact hd.1 x hfound
    | none =>
      rw [hfound] at hx
      exact hmissing x hx

theorem fits_of_items_cons {isFirst : Bool} {cs tail : List Char} {p : α × β}
    (hc : c.Faithful fits) (hrest : rest.Faithful fitsRest)
    (hmissing : ∀ x ∈ missing.inArray, fits x)
    (h : (cons name c missing rest).items isFirst cs = .ok (p, tail)) :
    fits p.1 ∧ fitsRest p.2 := by
  obtain ⟨next, -, h⟩ := bind_eq_ok_iff.mp h
  split at h
  next =>
    obtain ⟨⟨x, cs₁⟩, hx, h⟩ := bind_eq_ok_iff.mp h
    obtain ⟨⟨xs, cs₂⟩, hxs, h⟩ := bind_eq_ok_iff.mp h
    cases h
    exact ⟨hc.fits_of_read _ _ _ hx, hrest.fits_of_items _ _ _ _ hxs⟩
  next x hx =>
    obtain ⟨⟨xs, cs₂⟩, hxs, h⟩ := bind_eq_ok_iff.mp h
    cases h
    exact ⟨hmissing x hx, hrest.fits_of_items _ _ _ _ hxs⟩
  next => cases h

/-- A member in front of faithful members of other names. -/
theorem Faithful.cons (hc : c.Faithful fits) (hname : rest.member? name = none)
    (hobject : ∀ x ∈ missing.inObject, fits x) (harray : ∀ x ∈ missing.inArray, fits x)
    (hrest : rest.Faithful fitsRest) :
    (Fields.cons name c missing rest).Faithful fun p => fits p.1 ∧ fitsRest p.2 where
  absorbs p hp := by
    obtain ⟨x, xs⟩ := p
    obtain ⟨draft, habsorbs, hcomplete⟩ := hrest.absorbs xs hp.2
    have hfirst : ∀ tail, IsSeparated tail →
        (Fields.cons name c missing rest).readKnown name (none, rest.blank)
          (':' :: (c.write x).chars ++ tail) = .ok ((some x, rest.blank), tail) := by
      intro tail htail
      rw [readKnown, member?_cons_self]
      show (c.read ((c.write x).chars ++ tail)).map _ = _
      rw [hc.read_chars x hp.1 tail htail]
      rfl
    refine ⟨(some x, draft), .cons hfirst ?_, ?_⟩
    · exact habsorbs.map (Prod.mk (some x)) fun _ _ _ _ _ h => readKnown_cons hname (some x) h
    · show (rest.complete? draft).bind _ = _
      rw [hcomplete]
      rfl
  exists_keeps := by
    obtain ⟨Kept, hkeeps⟩ := hrest.exists_keeps
    exact ⟨_, keeps_cons hc hkeeps hobject⟩
  fits_of_items _ _ _ _ h := fits_of_items_cons hc hrest harray h

theorem Faithful.required (hc : c.Faithful fits) (hname : rest.member? name = none)
    (hrest : rest.Faithful fitsRest) :
    (Fields.required name c rest).Faithful fun p => fits p.1 ∧ fitsRest p.2 :=
  .cons hc hname (fun _ hx => absurd hx (Option.not_mem_none _))
    (fun _ hx => absurd hx (Option.not_mem_none _)) hrest

theorem Faithful.optional (hc : c.Faithful fits) (hpresent : ∀ x, fits x → (c.write x).IsPresent)
    (hname : rest.member? name = none) (hrest : rest.Faithful fitsRest) :
    (Fields.optional name c rest).Faithful fun p => (∀ x ∈ p.1, fits x) ∧ fitsRest p.2 := by
  refine .cons (hc.option hpresent) hname (fun o ho => ?_)
    (fun _ hx => absurd hx (Option.not_mem_none _)) hrest
  cases ho
  exact fun _ hx => absurd hx (Option.not_mem_none _)

theorem Faithful.withDefault {default : α} (hc : c.Faithful fits) (hdefault : fits default)
    (hname : rest.member? name = none) (hrest : rest.Faithful fitsRest) :
    (Fields.withDefault name c default rest).Faithful fun p => fits p.1 ∧ fitsRest p.2 := by
  refine .cons hc hname (fun x hx => ?_) (fun x hx => ?_) hrest
  · cases hx
    exact hdefault
  · cases hx
    exact hdefault

end Cons

/-! ### Records -/

/-- Faithful members make a faithful record, in whose texts other members may stand. -/
theorem Faithful.record {fields : Fields β} {fits : β → Prop} {toMembers : α → β}
    {ofMembers : β → α} (h : fields.Faithful fits) (hof : ∀ x, ofMembers (toMembers x) = x)
    (hto : ∀ y, toMembers (ofMembers y) = y) :
    (Codec.record fields toMembers ofMembers).Faithful fun x => fits (toMembers x) where
  read_chars x hx rest _ := by
    obtain ⟨draft, habsorbs, hcomplete⟩ := h.absorbs (toMembers x) hx
    have hall : Absorbs (fun key => (fields.member? key).getD skipMember) fields.blank
        (fields.members (toMembers x)) draft :=
      habsorbs.map id fun _ _ _ _ _ => read_of_readKnown skipMember
    have hread := hall.readObject rest
    show (Codec.record fields toMembers ofMembers).read ((Value.object _).chars ++ rest) = _
    rw [chars_object]
    show (readObject _ fields.blank (objectTail (fields.members (toMembers x)) ++ rest) >>= _) = _
    rw [hread]
    show (orMismatch ((fields.complete? draft).bind _) >>= _) = _
    rw [hcomplete]
    show Except.ok (ofMembers (toMembers x), rest) = _
    rw [hof]
  fits_of_read cs x rest hread := by
    simp only [Codec.record, Codec.recordWith] at hread
    split at hread
    next =>
      obtain ⟨⟨y, cs₁⟩, hitems, hread⟩ := bind_eq_ok_iff.mp hread
      obtain ⟨x', hx', hread⟩ := bind_eq_ok_iff.mp hread
      obtain ⟨cs₂, -, heq⟩ := bind_eq_ok_iff.mp hread
      cases hx'
      cases heq
      exact (hto y).symm ▸ h.fits_of_items _ _ _ _ hitems
    next =>
      obtain ⟨Kept, hkeeps⟩ := h.exists_keeps
      obtain ⟨⟨draft, cs₁⟩, hobject, hread⟩ := bind_eq_ok_iff.mp hread
      have hkept : Kept draft := by
        refine readMembers_preserves (fun key d cs d' rest hd hmember => ?_) hkeeps.blank hobject
        cases hkey : fields.member? key with
        | none =>
          -- other members leave the draft as it is
          rw [hkey] at hmember
          obtain ⟨cs₁, -, hmember⟩ := bind_eq_ok_iff.mp hmember
          obtain ⟨cs₂, -, heq⟩ := bind_eq_ok_iff.mp hmember
          cases heq
          exact hd
        | some read =>
          rw [hkey] at hmember
          exact hkeeps.member _ _ _ _ _ _ hkey hd hmember
      cases hcomplete : fields.complete? draft with
      | none => rw [hcomplete] at hread; cases hread
      | some y =>
        rw [hcomplete] at hread
        cases hread
        exact (hto y).symm ▸ hkeeps.complete _ _ hkept hcomplete
    next => cases hread

end Fields

end EmojiCatalog.Json
