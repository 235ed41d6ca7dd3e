import EmojiCatalog.Proofs.Json.Reading
/-!
Records read from texts of any form.

`Fields.Fills` says that some members, in the order in which they stand and with others between
them, make up a record.  A member in front of others takes its texts wherever they stand
(`Fields.gathers_cons`): the members under its name are read into one half of the draft, all others
into the other half, and neither half sees the order of the two.  So what a record is filled with
depends on nothing but the texts under each of its names.  `Fields.Lists` says the same of the items
of an array, which are taken from the first one on.
-/

namespace EmojiCatalog.Json

variable {α β γ δ : Type} {bs cs ds rest : List Char} {ms : List (String × List Char)}

/-! ### Members of a given key -/

theorem textsUnder_cons_self (k : String) (v : List Char) (ms : List (String × List Char)) :
    textsUnder k ((k, v) :: ms) = v :: textsUnder k ms := by
  rw [textsUnder, List.filter_cons_of_pos (by exact decide_eq_true rfl), List.map_cons]
  rfl

theorem textsUnder_cons_of_ne {k k' : String} (h : k' ≠ k) (v : List Char)
    (ms : List (String × List Char)) : textsUnder k ((k', v) :: ms) = textsUnder k ms := by
  rw [textsUnder, List.filter_cons_of_neg (by simpa using h)]
  rfl

theorem mem_textsUnder {p : String × List Char} (h : p ∈ ms) : p.2 ∈ textsUnder p.1 ms :=
  List.mem_map_of_mem (List.mem_filter.mpr ⟨h, decide_eq_true rfl⟩)

theorem exists_eq_singleton_of_forall₂ {r : α → β → Prop} {x : α} {ys : List β}
    (h : List.Forall₂ r [x] ys) : ∃ y, r x y ∧ ys = [y] := by
  cases h with
  | cons hxy hnil =>
    cases hnil
    exact ⟨_, hxy, rfl⟩

/-- The text under a key is the one that stands at the place of the key. -/
theorem textsUnder_of_isPrefix {names : List String} (hnames : names.Nodup)
    (hms : ms.map Prod.fst <+: names) {i : Nat} {k : String} (hk : names[i]? = some k) :
    textsUnder k ms = ((ms.map Prod.snd).drop i).take 1 := by
  induction ms generalizing names i with
  | nil => simp [textsUnder]
  | cons p ms ih =>
    obtain ⟨key, v⟩ := p
    obtain ⟨name, names, rfl⟩ : ∃ name names', names = name :: names' := by
      cases names with
      | nil => simp at hms
      | cons name names => exact ⟨name, names, rfl⟩
    rw [List.map_cons, List.cons_prefix_cons] at hms
    obtain ⟨rfl, hms⟩ := hms
    obtain ⟨hnot, hnames⟩ := List.nodup_cons.mp hnames
    cases i with
    | zero =>
      obtain rfl : key = k := Option.some.inj hk
      -- the key stands at no other place
      have hnone : textsUnder key ms = [] := by
        rw [textsUnder, List.filter_eq_nil_iff.mpr, List.map_nil]
        intro q hq heq
        have hkey : q.1 ∈ ms.map Prod.fst := List.mem_map_of_mem hq
        exact hnot (hms.subset (of_decide_eq_true heq ▸ hkey))
      rw [textsUnder_cons_self, hnone]
      rfl
    | succ i =>
      have hne : key ≠ k := by
        rintro rfl
        exact hnot (List.mem_of_getElem? hk)
      rw [textsUnder_cons_of_ne hne, ih hnames hms hk]
      rfl

/-- Where a key has one text at most, the order of the members and the other members do not matter
to it. -/
theorem textsUnder_eq_of_perm {spells : α → List Char → Prop} {o : Option α} {names : List String}
    {k : String} {ms' : List (String × List Char)} (hk : k ∈ names)
    (ho : List.Forall₂ spells o.toList (textsUnder k ms))
    (hperm : (ms'.filter (·.1 ∈ names)).Perm (ms.filter (·.1 ∈ names))) :
    textsUnder k ms' = textsUnder k ms := by
  have hknown : ∀ ms : List (String × List Char),
      textsUnder k ms = textsUnder k (ms.filter (·.1 ∈ names)) := by
    intro ms
    rw [textsUnder, textsUnder, List.filter_filter]
    refine congrArg _ (List.filter_congr fun p _ => ?_)
    by_cases hp : p.1 = k
    · simp [hp, hk]
    · simp [hp]
  have htexts : (textsUnder k ms').Perm (textsUnder k ms) := by
    rw [hknown ms', hknown ms]
    exact (hperm.filter _).map _
  generalize textsUnder k ms = vs at ho htexts
  cases o with
  | none =>
    cases ho
    exact htexts.eq_nil
  | some x =>
    obtain ⟨v, -, rfl⟩ := exists_eq_singleton_of_forall₂ ho
    exact htexts.eq_singleton

namespace Fields

/-- Whether the record has a member of that name. -/
def knows (fields : Fields α) (key : String) : Bool := (fields.member? key).isSome

/-- The members that the record knows, in the order in which they stand. -/
def known (fields : Fields α) (ms : List (String × List Char)) : List (String × List Char) :=
  ms.filter fun p => fields.knows p.1

theorem known_cons_of_knows {fields : Fields α} {key : String} (h : fields.knows key = true)
    (v : List Char) (ms : List (String × List Char)) :
    fields.known ((key, v) :: ms) = (key, v) :: fields.known ms :=
  List.filter_cons_of_pos h

theorem known_cons_of_not_knows {fields : Fields α} {key : String} (h : fields.knows key = false)
    (v : List Char) (ms : List (String × List Char)) :
    fields.known ((key, v) :: ms) = fields.known ms :=
  List.filter_cons_of_neg (Bool.eq_false_iff.mp h)

/-- The members that the record knows are read into a draft that is completed to the value. -/
def Fills (fields : Fields α) (ms : List (String × List Char)) (x : α) : Prop :=
  ∃ d, Gathers fields.readKnown fields.blank (fields.known ms) d ∧ fields.complete? d = some x

theorem fills_nil (ms : List (String × List Char)) : nil.Fills ms () := by
  have hnone : nil.known ms = [] := List.filter_eq_nil_iff.mpr nofun
  refine ⟨(), ?_, rfl⟩
  rw [hnone]
  exact .nil ()

/-! ### A member in front of others -/

section Cons

variable (name : String) (c : Codec α) (missing : Default α) (others : Fields β)
  (isWritten : α → Bool)

theorem knows_cons_self : (cons name c missing others isWritten).knows name = true :=
  congrArg Option.isSome (if_pos rfl)

theorem knows_cons_of_ne {key : String} (h : key ≠ name) :
    (cons name c missing others isWritten).knows key = others.knows key := by
  have hmember : (cons name c missing others isWritten).member? key = _ := if_neg h
  rw [knows, hmember]
  exact Option.isSome_map

variable {name c missing others isWritten} {key : String}

/-- A member that is in no draft yet is put into the draft. -/
theorem readsMember_cons_self {x : α} (h : Reads c.read x cs) (d : others.Draft) :
    ReadsMember ((cons name c missing others isWritten).readKnown name) (none, d) cs
      (some x, d) := by
  intro bs bs' rest hbs hbs' hrest
  have hmember : (cons name c missing others isWritten).member? name = _ := if_pos rfl
  have hread : readMember c none (bs ++ ':' :: (bs' ++ (cs ++ rest))) = .ok (x, rest) := by
    rw [readMember, readColon_append hbs]
    exact h.read_append bs' rest hbs' hrest
  rw [readKnown, hmember]
  show (readMember c none _).map _ = _
  rw [hread]
  rfl

/-- The other members are read beside the draft of the first. -/
theorem readsMember_cons_of_ne (hne : key ≠ name) (hknown : others.knows key = true)
    {d d' : others.Draft} (found : Option α) (h : ReadsMember (others.readKnown key) d cs d') :
    ReadsMember ((cons name c missing others isWritten).readKnown key) (found, d) cs
      (found, d') := by
  intro bs bs' rest hbs hbs' hrest
  have hmember : (cons name c missing others isWritten).member? key = _ := if_neg hne
  have hread := h bs bs' rest hbs hbs' hrest
  obtain ⟨read, hkey⟩ := Option.isSome_iff_exists.mp hknown
  rw [readKnown, hkey] at hread
  rw [readKnown, hmember, hkey]
  show (read d _).map _ = _
  rw [show read d _ = _ from hread]
  rfl

/-- Members are gathered into both parts of a draft, wherever the first one stands among them. -/
theorem gathers_cons {found o : Option α} {d d' : others.Draft} (hname : others.knows name = false)
    (hfree : found = none ∨ o = none)
    (ho : List.Forall₂ (Reads c.read) o.toList (textsUnder name ms))
    (h : Gathers others.readKnown d (others.known ms) d') :
    Gathers (cons name c missing others isWritten).readKnown (found, d)
      ((cons name c missing others isWritten).known ms) (found <|> o, d') := by
  induction ms generalizing found o d with
  | nil =>
    cases h
    obtain rfl : o = none := by
      cases o with
      | none => rfl
      | some x => cases ho
    have hfound : (found <|> none) = found := by cases found <;> rfl
    exact hfound.symm ▸ .nil _
  | cons p ms ih =>
    obtain ⟨key, v⟩ := p
    by_cases hkey : key = name
    · subst hkey
      rw [known_cons_of_not_knows hname] at h
      rw [textsUnder_cons_self] at ho
      have hknown := known_cons_of_knows (knows_cons_self key c missing others isWritten) v ms
      cases o with
      | none => cases ho
      | some x =>
        obtain rfl : found = none := hfree.resolve_right (Option.some_ne_none x)
        obtain ⟨hx, hlater⟩ := List.forall₂_cons.mp ho
        exact hknown ▸ .cons (readsMember_cons_self hx d) (ih (o := none) (.inr rfl) hlater h)
    · rw [textsUnder_cons_of_ne hkey] at ho
      have hsame := knows_cons_of_ne name c missing others isWritten hkey
      cases hknows : others.knows key with
      | false =>
        rw [known_cons_of_not_knows hknows] at h
        exact known_cons_of_not_knows (hsame.trans hknows) v ms ▸ ih hfree ho h
      | true =>
        rw [known_cons_of_knows hknows] at h
        cases h with
        | cons hfirst hlater =>
          exact known_cons_of_knows (hsame.trans hknows) v ms ▸
            .cons (readsMember_cons_of_ne hkey hknows found hfirst) (ih hfree ho hlater)

/-- The member is read where it stands, or its default stands in for it. -/
theorem Fills.cons {o : Option α} {x : α} {xs : β} (hname : others.knows name = false)
    (ho : List.Forall₂ (Reads c.read) o.toList (textsUnder name ms))
    (hx : (o <|> missing.inObject) = some x) (h : others.Fills ms xs) :
    (Fields.cons name c missing others isWritten).Fills ms (x, xs) := by
  obtain ⟨d, hgathers, hcomplete⟩ := h
  refine ⟨(none <|> o, d), gathers_cons hname (.inl rfl) ho hgathers, ?_⟩
  show ((o <|> missing.inObject).bind fun x => (others.complete? d).bind fun xs => some (x, xs)) = _
  rw [hx, hcomplete]
  rfl

theorem Fills.required {x : α} {xs : β} (hname : others.knows name = false)
    (hx : List.Forall₂ (Reads c.read) [x] (textsUnder name ms)) (h : others.Fills ms xs) :
    (Fields.required name c others).Fills ms (x, xs) :=
  .cons (o := some x) hname hx rfl h

theorem Fills.withDefault {default : α} {o : Option α} {xs : β} (hname : others.knows name = false)
    (ho : List.Forall₂ (Reads c.read) o.toList (textsUnder name ms)) (h : others.Fills ms xs) :
    (Fields.withDefault name c default others).Fills ms (o.getD default, xs) :=
  .cons hname ho (by cases o <;> rfl) h

theorem Fills.omissible {spells : α → List Char → Prop} {o : Option α} {xs : β}
    (hname : others.knows name = false)
    (hspells : ∀ x cs, spells x cs → Reads c.read x cs ∧ cs.head? ≠ some 'n')
    (ho : SpellsOmissible spells o (textsUnder name ms)) (h : others.Fills ms xs) :
    (Fields.omissible name c others).Fills ms (o, xs) := by
  generalize htexts : textsUnder name ms = texts at ho
  cases ho with
  | missing =>
    refine .cons (o := none) hname ?_ rfl h
    rw [htexts]
    exact .nil
  | null =>
    refine .cons (o := some none) hname ?_ rfl h
    rw [htexts]
    exact .cons (reads_option_null c) .nil
  | @present x cs hx =>
    obtain ⟨hread, hn⟩ := hspells x cs hx
    refine .cons (o := some (some x)) hname ?_ rfl h
    rw [htexts]
    exact .cons (hread.option hn) .nil

end Cons

/-! ### Whole objects -/

theorem knows_eq_false_iff {fields : Fields α} {key : String} :
    fields.knows key = false ↔ fields.member? key = none :=
  Option.isSome_eq_false_iff.trans Option.isNone_iff_eq_none

/-- An unknown key is none of the known ones. -/
theorem not_mem_of_not_knows {fields : Fields α} {keys : List String} {key : String}
    (hkeys : ∀ k ∈ keys, fields.knows k = true) (h : fields.knows key = false) : key ∉ keys := by
  intro hkey
  rw [hkeys key hkey] at h
  cases h

/-- A value of any kind is passed over after an unknown key. -/
theorem readsMember_skipMember {v : List Char} (h : IsValue v) (d : δ) :
    ReadsMember skipMember d v d := by
  intro bs bs' rest hbs hbs' hrest
  rw [skipMember, readColon_append hbs]
  show (skipValue _ >>= _) = _
  rw [h.skipValue_append hbs' hrest]
  rfl

/-- The members that the record does not know leave the draft as it is. -/
theorem gathers_skipMember {fields : Fields α} {d d' : fields.Draft}
    (h : Gathers fields.readKnown d (fields.known ms) d')
    (hunknown : ∀ p ∈ ms, fields.knows p.1 = false → IsValue p.2) :
    Gathers (fun key => (fields.member? key).getD skipMember) d ms d' := by
  induction ms generalizing d with
  | nil =>
    cases h
    exact .nil d'
  | cons p ms ih =>
    obtain ⟨key, v⟩ := p
    obtain ⟨hp, hms⟩ := List.forall_mem_cons.mp hunknown
    cases hknows : fields.knows key with
    | false =>
      rw [known_cons_of_not_knows hknows] at h
      refine .cons (fun bs bs' rest hbs hbs' hrest => ?_) (ih h hms)
      rw [knows_eq_false_iff.mp hknows]
      exact readsMember_skipMember (hp hknows) d bs bs' rest hbs hbs' hrest
    | true =>
      rw [known_cons_of_knows hknows] at h
      cases h with
      | cons hfirst hlater =>
        exact .cons (fun bs bs' rest hbs hbs' hrest =>
          read_of_readKnown skipMember (hfirst bs bs' rest hbs hbs' hrest)) (ih hlater hms)

/-- A record is read from every object whose members fill it. -/
theorem Fills.reads_record {fields : Fields β} {y : β} {toMembers : α → β} {ofMembers : β → α}
    (h : fields.Fills ms y) (hunknown : ∀ p ∈ ms, fields.knows p.1 = false → IsValue p.2)
    (hcs : SpellsObject ms cs) :
    Reads (Codec.record fields toMembers ofMembers).read (ofMembers y) cs := by
  obtain ⟨d, hgathers, hcomplete⟩ := h
  obtain ⟨ds, hds, rfl⟩ := hcs
  refine ⟨⟨_, _, rfl, rfl, by decide⟩, fun bs rest hbs _ => ?_⟩
  have hread := (gathers_skipMember hgathers hunknown).readObject hds rest
  simp only [Codec.record, Codec.recordWith, List.cons_append,
    skipBlanks_append_cons hbs (c := '\x7b') rfl, hread, hcomplete, Option.bind_some, bind,
    Except.bind, orMismatch]
  rfl

/-! ### Arrays -/

/-- The items of an array are read as the members of the record. -/
def Lists (fields : Fields α) (items : List (List Char)) (x : α) : Prop :=
  ∀ isFirst cs rest, SpellsItems isFirst items cs →
    ∃ tail, fields.items isFirst (cs ++ rest) = .ok (x, tail) ∧ closeArray tail = .ok rest

theorem lists_nil : nil.Lists [] () := by
  intro isFirst cs rest hcs
  cases hcs with
  | @close _ bs hbs =>
    refine ⟨_, rfl, ?_⟩
    rw [closeArray, List.append_assoc, List.singleton_append, skipBlanks_append_cons hbs rfl]
    rfl

theorem Lists.cons {name : String} {c : Codec α} {missing : Default α} {others : Fields β}
    {v : List Char} {vs : List (List Char)} {x : α} {xs : β} (hx : Reads c.read x v)
    (h : others.Lists vs xs) : (Fields.cons name c missing others).Lists (v :: vs) (x, xs) := by
  intro isFirst cs rest hcs
  obtain ⟨ds, hds, hnext⟩ := hcs.nextItem_append hx.beginsItem rest
  obtain ⟨tail, hitems, htail⟩ := h false ds rest hds
  have hread : c.read (v ++ (ds ++ rest)) = .ok (x, ds ++ rest) :=
    hx.read_append [] _ isBlanks_nil (hds.isSeparated rest)
  refine ⟨tail, ?_, htail⟩
  simp only [Fields.cons, hnext, bind, Except.bind, hread, hitems]
  rfl

theorem Lists.missing {name : String} {c : Codec α} {missing : Default α} {others : Fields β}
    {x : α} {xs : β} (hx : missing.inArray = some x) (h : others.Lists [] xs) :
    (Fields.cons name c missing others).Lists [] (x, xs) := by
  intro isFirst cs rest hcs
  obtain ⟨tail, hitems, htail⟩ := h isFirst cs rest hcs
  refine ⟨tail, ?_, htail⟩
  have hnext : nextItem isFirst (cs ++ rest) = .ok none := by
    cases hcs with
    | close hbs =>
      rw [List.append_assoc]
      exact nextItem_close hbs rest
  simp only [Fields.cons, hnext, bind, Except.bind, hx, hitems]
  rfl

/-- A member is the first of the items, or its default stands in for it when there are none. -/
theorem Lists.withDefault {name : String} {c : Codec α} {default : α} {others : Fields β}
    {vs : List (List Char)} {o : Option α} {xs : β}
    (ho : List.Forall₂ (Reads c.read) o.toList (vs.take 1)) (h : others.Lists (vs.drop 1) xs) :
    (Fields.withDefault name c default others).Lists vs (o.getD default, xs) := by
  cases vs with
  | nil =>
    cases o with
    | none => exact .missing rfl h
    | some x => cases ho
  | cons v vs =>
    cases o with
    | none => cases ho
    | some x =>
      cases ho with
      | cons hx _ => exact .cons hx h

/-- A record is read from every array whose items are listed. -/
theorem Lists.reads_record {fields : Fields β} {items : List (List Char)} {y : β}
    {toMembers : α → β} {ofMembers : β → α} (h : fields.Lists items y)
    (hcs : SpellsArray items cs) :
    Reads (Codec.record fields toMembers ofMembers).read (ofMembers y) cs := by
  obtain ⟨ds, hds, rfl⟩ := hcs
  refine ⟨⟨_, _, rfl, rfl, by decide⟩, fun bs rest hbs _ => ?_⟩
  obtain ⟨tail, hitems, htail⟩ := h true ds rest hds
  simp only [Codec.record, Codec.recordWith, List.cons_append,
    skipBlanks_append_cons hbs (c := '[') rfl, hitems, bind, Except.bind, orMismatch, htail]
  rfl

end Fields

end EmojiCatalog.Json
