import EmojiCatalog.Proofs.Json.Record
import EmojiCatalog.Proofs.Json.Skip
/-!
What is read from a text, however it is written.

`Reads read x cs` says that a reader reads the value `x` from the text `cs`, with any blanks before
it and with anything behind it that may follow a value.  Strings are read from all of their texts,
with escapes of any kind, because every character is (`SpellsChar.readBody_append`).

The members of an object are followed one by one: `Gathers member d ms d'` says that reading the
members with the keys and texts `ms` turns the draft `d` into `d'`.  How the object is laid out does
not matter then (`Gathers.readObject`).
-/

namespace EmojiCatalog.Json

variable {α β γ δ : Type} {bs cs ds rest : List Char} {s : String}

/-! ### Quoted text -/

theorem readUnits_append {n : Nat} (h : IsUnit n ds) (hleading : isLeading n = false)
    (htrailing : isTrailing n = false) (rest : List Char) :
    readUnits (ds ++ rest) = .ok (Char.ofNat n, rest) := by
  rw [readUnits, readUnit_of_isUnit h]
  show (if isTrailing n then _ else if !isLeading n then _ else _) = _
  rw [htrailing, hleading]
  rfl

theorem readUnits_append_pair {n m : Nat} {es : List Char} (hn : IsUnit n ds) (hm : IsUnit m es)
    (hleading : isLeading n = true) (htrailing : isTrailing m = true) (rest : List Char) :
    readUnits (ds ++ '\\' :: 'u' :: (es ++ rest)) = .ok (ofPair n m, rest) := by
  -- the first half of a pair is no second half
  have hfirst : isTrailing n = false := by
    simp only [isLeading, Bool.and_eq_true, decide_eq_true_eq] at hleading
    simp only [isTrailing, Bool.and_eq_false_iff, decide_eq_false_iff_not]
    omega
  rw [readUnits, readUnit_of_isUnit hn]
  show (if isTrailing n then _ else if !isLeading n then _ else _) = _
  rw [hfirst, hleading]
  show (readUnit (es ++ rest) >>= _) = _
  rw [readUnit_of_isUnit hm]
  exact if_pos htrailing

/-- A character is read however it is written. -/
theorem SpellsChar.readBody_append {c : Char} (h : SpellsChar c ds) (rest : List Char) :
    readBody (ds ++ rest) = (readBody rest).map fun p => (c :: p.1, p.2) := by
  cases h with
  | plain hquote hslash hcontrol =>
    exact readBody_plain hquote hslash (of_decide_eq_false hcontrol)
  | short hshort => exact readBody_escape_of_readEscape (readEscape_of_shortEscape hshort)
  | unit hunit hleading htrailing =>
    exact readBody_escape_of_readEscape (readUnits_append hunit hleading htrailing rest)
  | @pair n m ds es hn hm hleading htrailing =>
    have hread := readUnits_append_pair hn hm hleading htrailing rest
    rw [List.append_assoc]
    exact readBody_escape_of_readEscape hread

theorem readBody_flatten {chars : List Char} {pieces : List (List Char)}
    (h : List.Forall₂ SpellsChar chars pieces) (rest : List Char) :
    readBody (pieces.flatten ++ '"' :: rest) = .ok (chars, rest) := by
  induction h with
  | nil => exact readBody_quote rest
  | cons hc _ ih =>
    rw [List.flatten_cons, List.append_assoc, hc.readBody_append, ih]
    rfl

/-- A string is read from all of its texts. -/
theorem SpellsText.exists_readText (h : SpellsText s cs) :
    ∃ body, cs = '"' :: body ∧ ∀ rest, readText (body ++ rest) = .ok (s, rest) := by
  obtain ⟨pieces, hpieces, rfl⟩ := h
  refine ⟨pieces.flatten ++ ['"'], rfl, fun rest => ?_⟩
  rw [readText, List.append_assoc, List.singleton_append, readBody_flatten hpieces]
  show Except.ok (String.ofList s.toList, rest) = _
  rw [String.ofList_toList]

/-- The text that a string is written as is one of its texts. -/
theorem spellsText_quote (s : String) : SpellsText s (quote s) := by
  refine ⟨s.toList.map escape, ?_, by rw [quote, List.flatMap_def]⟩
  generalize s.toList = chars
  induction chars with
  | nil => exact .nil
  | cons c chars ih =>
    refine .cons ?_ ih
    obtain ⟨e, he, hshort⟩ | ⟨hcontrol, he⟩ | ⟨he, hquote, hslash, hcontrol⟩ := escape_cases c
    · rw [he]
      exact .short hshort
    · have hcode : ((0 * 16 + 0) * 16 + c.toNat / 16) * 16 + c.toNat % 16 = c.toNat := by omega
      have hunit : IsUnit (((0 * 16 + 0) * 16 + c.toNat / 16) * 16 + c.toNat % 16) _ :=
        .intro (a := '0') (b := '0') (by decide) (by decide)
          (hexValue_hexDigit (c.toNat / 16) (by omega))
          (hexValue_hexDigit (c.toNat % 16) (Nat.mod_lt _ (by decide)))
      rw [hcode] at hunit
      have hchar := SpellsChar.unit hunit (by simp [isLeading]; omega) (by simp [isTrailing]; omega)
      rw [Char.ofNat_toNat] at hchar
      exact he ▸ hchar
    · rw [he]
      exact .plain hquote hslash (decide_eq_false hcontrol)

/-! ### Readers -/

/-- The reader reads the value from the text, whatever blanks come before it and whatever
follows. -/
structure Reads (read : Reader α) (x : α) (cs : List Char) : Prop where
  beginsItem : BeginsItem cs
  read_append : ∀ bs rest, IsBlanks bs → IsSeparated rest →
    read (bs ++ (cs ++ rest)) = .ok (x, rest)

/-- A text is read as one value at most. -/
theorem Reads.unique {read : Reader α} {x y : α} (hx : Reads read x cs) (hy : Reads read y cs) :
    x = y := by
  have h := (hx.read_append [] [] isBlanks_nil trivial).symm.trans
    (hy.read_append [] [] isBlanks_nil trivial)
  exact congrArg Prod.fst (Except.ok.inj h)

/-- A whole text is decoded that is read. -/
theorem decode_of_reads {c : Codec α} {x : α} {isValue : List Char → Prop}
    (h : ∀ cs, isValue cs → Reads c.read x cs) (hs : IsDocument isValue s) :
    c.decode s = .ok x := by
  obtain ⟨bs, cs, bs', hbs, hcs, hbs', hs⟩ := hs
  have hrest : IsSeparated bs' := by
    rw [← List.append_nil bs']
    exact hbs'.isSeparated trivial
  have hempty : skipBlanks bs' = [] := by
    have happend := skipBlanks_append hbs' []
    rwa [List.append_nil] at happend
  rw [Codec.decode, hs, Codec.decodeChars, (h cs hcs).read_append bs bs' hbs hrest]
  show (if (skipBlanks bs').isEmpty then _ else _) = _
  rw [hempty]
  rfl

/-! ### Scalars -/

theorem SpellsText.reads (h : SpellsText s cs) : Reads Codec.text.read s cs := by
  obtain ⟨body, rfl, hread⟩ := h.exists_readText
  refine ⟨⟨_, _, rfl, rfl, by decide⟩, fun bs rest hbs _ => ?_⟩
  simp only [Codec.text, List.cons_append, skipBlanks_append_cons hbs (c := '"') rfl]
  exact hread rest

theorem SpellsText.reads_spelled {spell : α → String} {ofText? : String → Option α} {x : α}
    (h : SpellsText s cs) (hx : ofText? s = some x) :
    Reads (Codec.spelled spell ofText?).read x cs := by
  refine ⟨h.reads.beginsItem, fun bs rest hbs hrest => ?_⟩
  simp only [Codec.spelled, h.reads.read_append bs rest hbs hrest, bind, Except.bind, hx]

theorem beginsItem_toDigits (n : Nat) :
    ∃ c ds, Nat.toDigits 10 n = c :: ds ∧ c.isDigit = true ∧ isBlank c = false ∧ c ≠ ']' := by
  obtain ⟨c, ds, hds, hc⟩ := exists_toDigits_eq_cons n
  refine ⟨c, ds, hds, hc, isBlank_of_isDigit hc, ?_⟩
  rintro rfl
  cases hc

theorem SpellsWord.head_ne {n : Nat} (h : SpellsWord n cs) : cs.head? ≠ some 'n' := by
  obtain ⟨c, ds, hds, hc, -⟩ := beginsItem_toDigits n
  rw [h.2, hds]
  intro hhead
  rw [Option.some.inj hhead] at hc
  cases hc

theorem SpellsWord.reads {n : Nat} (h : SpellsWord n cs) : Reads Codec.word.read n cs := by
  obtain ⟨hn, rfl⟩ := h
  obtain ⟨c, ds, hds, hc, hblank, hclose⟩ := beginsItem_toDigits n
  refine ⟨⟨c, ds, hds, hblank, hclose⟩, fun bs rest hbs hrest => ?_⟩
  have hread := Codec.faithful_word.read_chars n hn rest hrest
  have hblanks : Codec.word.read (bs ++ (Nat.toDigits 10 n ++ rest))
      = Codec.word.read (Nat.toDigits 10 n ++ rest) := by
    show (Codec.readNumber _ >>= _) = (Codec.readNumber _ >>= _)
    rw [Codec.readNumber, Codec.readNumber, skipBlanks_append hbs]
  exact hblanks.trans hread

/-- Nothing, and the ways to write it among members: by leaving it out, and by its word. -/
inductive SpellsOmissible (spells : α → List Char → Prop) : Option α → List (List Char) → Prop
  | missing : SpellsOmissible spells none []
  | null : SpellsOmissible spells none [nullChars]
  | present {x : α} {cs : List Char} (h : spells x cs) : SpellsOmissible spells (some x) [cs]

theorem spellsOmissible_toList {spells : α → List Char → Prop} {o : Option α} {f : α → List Char}
    (h : ∀ x ∈ o, spells x (f x)) : SpellsOmissible spells o (o.map f).toList := by
  cases o with
  | none => exact .missing
  | some x => exact .present (h x rfl)

theorem reads_option_null (c : Codec α) : Reads (Codec.option c).read none nullChars := by
  refine ⟨⟨_, _, rfl, rfl, by decide⟩, fun bs rest hbs _ => ?_⟩
  simp only [Codec.option, nullChars, List.cons_append, skipBlanks_append_cons hbs (c := 'n') rfl]
  rfl

theorem Reads.option {c : Codec α} {x : α} (h : Reads c.read x cs) (hn : cs.head? ≠ some 'n') :
    Reads (Codec.option c).read (some x) cs := by
  refine ⟨h.beginsItem, fun bs rest hbs hrest => ?_⟩
  have hread := h.read_append [] rest isBlanks_nil hrest
  obtain ⟨ch, tail, rfl, hblank, -⟩ := h.beginsItem
  rw [List.nil_append, List.cons_append] at hread
  simp only [Codec.option, List.cons_append, skipBlanks_append_cons hbs hblank]
  split
  next heq => exact absurd (congrArg some (List.cons.inj heq).1) hn
  next => rw [hread]; rfl

/-! ### Members one by one -/

/-- Reading a member's text, from what follows the key on, turns one draft into the other. -/
def ReadsMember (read : δ → Reader δ) (d : δ) (cs : List Char) (d' : δ) : Prop :=
  ∀ bs bs' rest, IsBlanks bs → IsBlanks bs' → IsSeparated rest →
    read d (bs ++ ':' :: (bs' ++ (cs ++ rest))) = .ok (d', rest)

/-- Reading the members one after the other turns one draft into the other. -/
inductive Gathers (member : String → δ → Reader δ) : δ → List (String × List Char) → δ → Prop
  | nil (d : δ) : Gathers member d [] d
  | cons {d d' d'' : δ} {k : String} {v : List Char} {ms : List (String × List Char)}
      (hfirst : ReadsMember (member k) d v d') (hrest : Gathers member d' ms d'') :
      Gathers member d ((k, v) :: ms) d''

theorem readColon_append {bs : List Char} (hbs : IsBlanks bs) (cs : List Char) :
    readColon (bs ++ ':' :: cs) = .ok cs := by
  rw [readColon, skipBlanks_append_cons hbs rfl]
  rfl

section Members

variable {member : String → δ → Reader δ} {d d' : δ} {ms : List (String × List Char)}
variable {isFirst : Bool} {n : Nat} {k : String} {ks : List Char}

theorem SpellsMembers.isSeparated (h : SpellsMembers false ms cs) (rest : List Char) :
    IsSeparated (cs ++ rest) := by
  cases h with
  | close hbs => exact hbs.isSeparated_cons (.inr (.inr rfl)) _ rest
  | next hbs => exact hbs.isSeparated_cons (.inl rfl) _ rest

theorem SpellsMembers.length_lt (h : SpellsMembers isFirst ms cs) : ms.length < cs.length := by
  induction h with
  | close => simp
  | first _ _ _ _ _ ih | next _ _ _ _ _ _ ih =>
    simp only [List.length_cons, List.length_append]
    omega

theorem readKey_append (hbs : IsBlanks bs) (hks : SpellsText k ks) (rest : List Char) :
    readKey (bs ++ (ks ++ rest)) = .ok (k, rest) := by
  obtain ⟨body, rfl, hread⟩ := hks.exists_readText
  rw [readKey, List.cons_append, skipBlanks_append_cons hbs rfl]
  exact hread rest

theorem nextKey_first (hbs : IsBlanks bs) (hks : SpellsText k ks) (rest : List Char) :
    nextKey true (bs ++ (ks ++ rest)) = .ok (some k, rest) := by
  have hread := readKey_append isBlanks_nil hks rest
  obtain ⟨body, rfl, -⟩ := hks.exists_readText
  rw [List.nil_append, List.cons_append] at hread
  rw [nextKey, List.cons_append, skipBlanks_append_cons hbs (c := '"') rfl]
  show (readKey ('"' :: (body ++ rest))).map _ = _
  rw [hread]
  rfl

theorem nextKey_next {bs₁ : List Char} (hbs : IsBlanks bs) (hbs₁ : IsBlanks bs₁)
    (hks : SpellsText k ks) (rest : List Char) :
    nextKey false (bs ++ ',' :: (bs₁ ++ (ks ++ rest))) = .ok (some k, rest) := by
  rw [nextKey, skipBlanks_append_cons hbs (c := ',') rfl]
  show (readKey (bs₁ ++ (ks ++ rest))).map _ = _
  rw [readKey_append hbs₁ hks]
  rfl

theorem nextKey_close (hbs : IsBlanks bs) (rest : List Char) :
    nextKey isFirst (bs ++ '\x7d' :: rest) = .ok (none, rest) := by
  rw [nextKey, skipBlanks_append_cons hbs (c := '\x7d') rfl]
  rfl

/-- Members are read up to the closing brace, wherever blanks stand and however keys are written. -/
theorem Gathers.readMembers (hcs : SpellsMembers isFirst ms cs) (h : Gathers member d ms d')
    (hn : ms.length < n) (rest : List Char) :
    Json.readMembers member n isFirst d (cs ++ rest) = .ok (d', rest) := by
  induction hcs generalizing d n with
  | close hbs =>
    obtain ⟨n, rfl⟩ : ∃ m, n = m + 1 := Nat.exists_eq_add_one.mpr hn
    cases h
    rw [Json.readMembers, List.append_assoc, List.singleton_append, nextKey_close hbs]
    rfl
  | first hbs hks hbs' hbs'' hds ih =>
    obtain ⟨n, rfl⟩ : ∃ m, n = m + 1 := Nat.exists_eq_add_one.mpr (Nat.zero_lt_of_lt hn)
    cases h with
    | cons hfirst hrest =>
      simp only [List.append_assoc, List.cons_append]
      rw [Json.readMembers, nextKey_first hbs hks]
      show (member _ d _ >>= _) = _
      rw [hfirst _ _ _ hbs' hbs'' (hds.isSeparated rest)]
      exact ih hrest (Nat.lt_of_succ_lt_succ hn)
  | next hbs hbs₁ hks hbs' hbs'' hds ih =>
    obtain ⟨n, rfl⟩ : ∃ m, n = m + 1 := Nat.exists_eq_add_one.mpr (Nat.zero_lt_of_lt hn)
    cases h with
    | cons hfirst hrest =>
      simp only [List.append_assoc, List.cons_append]
      rw [Json.readMembers, nextKey_next hbs hbs₁ hks]
      show (member _ d _ >>= _) = _
      rw [hfirst _ _ _ hbs' hbs'' (hds.isSeparated rest)]
      exact ih hrest (Nat.lt_of_succ_lt_succ hn)

/-- An object is read whose members are gathered. -/
theorem Gathers.readObject (hcs : SpellsMembers true ms cs) (h : Gathers member d ms d')
    (rest : List Char) : Json.readObject member d (cs ++ rest) = .ok (d', rest) := by
  refine h.readMembers hcs ?_ rest
  have hlength := hcs.length_lt
  rw [List.length_append]
  omega

end Members

/-! ### Items one by one -/

theorem SpellsItems.isSeparated {vs : List (List Char)} (h : SpellsItems false vs cs)
    (rest : List Char) : IsSeparated (cs ++ rest) := by
  cases h with
  | close hbs => exact hbs.isSeparated_cons (.inr (.inl rfl)) _ rest
  | next hbs => exact hbs.isSeparated_cons (.inl rfl) _ rest

theorem nextItem_close {isFirst : Bool} (hbs : IsBlanks bs) (rest : List Char) :
    nextItem isFirst (bs ++ ']' :: rest) = .ok none := by
  rw [nextItem, skipBlanks_append_cons hbs (c := ']') rfl]
  rfl

/-- The next item is found, the first one at once and a later one after a comma. -/
theorem SpellsItems.nextItem_append {isFirst : Bool} {v : List Char} {vs : List (List Char)}
    (hcs : SpellsItems isFirst (v :: vs) cs) (hv : BeginsItem v) (rest : List Char) :
    ∃ ds, SpellsItems false vs ds ∧
      nextItem isFirst (cs ++ rest) = .ok (some (v ++ (ds ++ rest))) := by
  obtain ⟨c, tail, rfl, hblank, hclose⟩ := hv
  cases hcs with
  | @first bs _ ds _ hbs hds =>
    refine ⟨ds, hds, ?_⟩
    rw [nextItem, List.append_assoc, List.append_assoc, List.cons_append,
      skipBlanks_append_cons hbs hblank]
    split
    next heq => cases heq
    next heq => exact absurd (List.cons.inj heq).1 hclose
    next heq =>
      rw [if_pos rfl, ← heq]
  | @next bs bs' _ ds _ hbs hbs' hds =>
    refine ⟨ds, hds, ?_⟩
    have hnext := skipBlanks_append_cons hbs' hblank (tail ++ (ds ++ rest))
    rw [nextItem, List.append_assoc, List.cons_append, skipBlanks_append_cons hbs rfl,
      List.append_assoc, List.append_assoc, List.cons_append]
    split
    next heq => cases heq
    next heq => cases (List.cons.inj heq).1
    next heq =>
      obtain ⟨rfl, rfl⟩ := List.cons.inj heq
      rw [if_neg Bool.false_ne_true, if_pos rfl, hnext]
      split
      next heq => cases heq
      next heq => exact absurd (List.cons.inj heq).1 hclose
      next => rfl

end EmojiCatalog.Json
