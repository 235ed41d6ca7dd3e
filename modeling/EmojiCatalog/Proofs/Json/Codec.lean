import EmojiCatalog.Json.Codec
import EmojiCatalog.Proofs.Json.Numeral
import EmojiCatalog.Proofs.Json.Text
/-!
Codecs that read back what they write.

A codec is faithful (`Codec.Faithful`) for the values that fit when it reads every such value back
from its text, whatever comes after it in the same document, and when every value that it reads
fits.  The second half is what makes a value read from any text at all one that can be written and
read again (`Codec.Faithful.roundTrips`).

Faithfulness is shown codec by codec.  For objects the members of a text are followed one by one:
`Absorbs member d members d'` says that reading the members turns the draft `d` into `d'`, and
`Absorbs.readObject` that the whole object then does.  What every member preserves the whole
object preserves (`readMembers_preserves`).
-/

namespace EmojiCatalog.Json

variable {α β δ ε : Type}

/-! ### Results -/

theorem bind_eq_ok_iff {x : Except ε α} {f : α → Except ε β} {y : β} :
    (x >>= f) = .ok y ↔ ∃ a, x = .ok a ∧ f a = .ok y := by
  cases x with
  | error e => exact ⟨nofun, fun ⟨_, h, _⟩ => nomatch h⟩
  | ok a => exact ⟨fun h => ⟨a, rfl, h⟩, fun ⟨_, h, hf⟩ => Except.ok.inj h ▸ hf⟩

theorem map_eq_ok_iff {x : Except ε α} {f : α → β} {y : β} :
    x.map f = .ok y ↔ ∃ a, x = .ok a ∧ f a = y := by
  cases x with
  | error e => exact ⟨nofun, fun ⟨_, h, _⟩ => nomatch h⟩
  | ok a =>
    constructor
    · intro h
      exact ⟨a, rfl, Except.ok.inj h⟩
    · rintro ⟨a', h, rfl⟩
      rw [Except.ok.inj h]
      rfl

/-! ### Faithfulness -/

/-- The codec reads back every value that fits, and reads only values that fit. -/
structure Codec.Faithful (c : Codec α) (fits : α → Prop) : Prop where
  read_chars : ∀ x, fits x → ∀ rest, IsSeparated rest →
    c.read ((c.write x).chars ++ rest) = .ok (x, rest)
  fits_of_read : ∀ cs x rest, c.read cs = .ok (x, rest) → fits x

/-- Every value that fits is read back from its text, and whatever is read from a text fits and is
read back from its own text. -/
def Codec.RoundTrips (c : Codec α) (fits : α → Prop) : Prop :=
  (∀ x, fits x → c.decode (c.encode x) = .ok x) ∧
    ∀ s x, c.decode s = .ok x → fits x ∧ c.decode (c.encode x) = .ok x

theorem Codec.Faithful.decode_encode {c : Codec α} {fits : α → Prop} (h : c.Faithful fits) {x : α}
    (hx : fits x) : c.decode (c.encode x) = .ok x := by
  have hread := h.read_chars x hx [] trivial
  rw [List.append_nil] at hread
  rw [decode, encode, Value.compact, String.toList_ofList, decodeChars, hread]
  rfl

theorem Codec.Faithful.fits_of_decode {c : Codec α} {fits : α → Prop} (h : c.Faithful fits)
    {s : String} {x : α} (hs : c.decode s = .ok x) : fits x := by
  obtain ⟨⟨y, rest⟩, hread, hrest⟩ := bind_eq_ok_iff.mp hs
  have hy : y = x := by
    dsimp only at hrest
    split at hrest
    · exact Except.ok.inj hrest
    · cases hrest
  exact hy ▸ h.fits_of_read _ _ _ hread

theorem Codec.Faithful.roundTrips {c : Codec α} {fits : α → Prop} (h : c.Faithful fits) :
    c.RoundTrips fits :=
  ⟨fun _ hx => h.decode_encode hx,
    fun _ _ hs => ⟨h.fits_of_decode hs, h.decode_encode (h.fits_of_decode hs)⟩⟩

theorem Codec.Faithful.of_iff {c : Codec α} {fits fits' : α → Prop} (h : c.Faithful fits)
    (hiff : ∀ x, fits x ↔ fits' x) : c.Faithful fits' := by
  have heq : fits = fits' := funext fun x => propext (hiff x)
  exact heq ▸ h

/-! ### Scalars -/

theorem skipBlanks_cons {c : Char} (h : isBlank c = false) (cs : List Char) :
    skipBlanks (c :: cs) = c :: cs := by
  rw [skipBlanks, List.dropWhile_cons, h, if_neg Bool.false_ne_true]

theorem isBlank_of_isDigit {c : Char} (h : c.isDigit = true) : isBlank c = false := by
  cases hb : isBlank c with
  | false => rfl
  | true => obtain rfl | rfl | rfl | rfl := eq_of_isBlank hb <;> cases h

namespace Codec

theorem readNumber_toDigits {n : Nat} {rest : List Char} (h : n < wordLimit)
    (hrest : IsSeparated rest) :
    readNumber (Nat.toDigits 10 n ++ rest) = .ok (.whole n, rest) := by
  have hread := readNumeral_toDigits h hrest
  obtain ⟨c, ds, hds, hc⟩ := exists_toDigits_eq_cons n
  rw [hds, List.cons_append] at hread ⊢
  rw [readNumber, skipBlanks_cons (isBlank_of_isDigit hc)]
  simp only [hc, Bool.or_true, if_true, hread]

theorem faithful_word : word.Faithful (· < wordLimit) where
  read_chars n hn rest hrest := by
    show (readNumber (Nat.toDigits 10 n ++ rest) >>= _) = _
    rw [readNumber_toDigits hn hrest]
    exact if_pos hn
  fits_of_read cs n rest h := by
    obtain ⟨⟨number, rest'⟩, -, h⟩ := bind_eq_ok_iff.mp h
    cases number with
    | real x => cases h
    | whole m =>
      dsimp only at h
      split at h
      next hm =>
        obtain ⟨rfl, -⟩ : m = n ∧ rest' = rest := by simpa using h
        exact hm
      next => cases h

theorem faithful_flag : flag.Faithful fun _ => True where
  read_chars b _ rest _ := by cases b <;> rfl
  fits_of_read _ _ _ _ := trivial

theorem faithful_text : text.Faithful fun _ => True where
  read_chars s _ rest _ := readText_quoteTail s rest
  fits_of_read _ _ _ _ := trivial

end Codec

/-! ### Options -/

/-- The text of the value cannot be taken for blanks, nor for the text of nothing. -/
def Value.IsPresent (v : Value) : Prop :=
  ∃ c cs, v.chars = c :: cs ∧ isBlank c = false ∧ c ≠ 'n'

theorem Value.isPresent_text (s : String) : (Value.text s).IsPresent :=
  ⟨'"', quoteTail s, rfl, rfl, by decide⟩

theorem Codec.Faithful.option {c : Codec α} {fits : α → Prop} (h : c.Faithful fits)
    (hpresent : ∀ x, fits x → (c.write x).IsPresent) :
    (Codec.option c).Faithful fun o => ∀ x ∈ o, fits x where
  read_chars o ho rest hrest := by
    cases o with
    | none => rfl
    | some x =>
      have hx := ho x rfl
      have hread := h.read_chars x hx rest hrest
      obtain ⟨ch, cs, hchars, hblank, hn⟩ := hpresent x hx
      show (Codec.option c).read ((c.write x).chars ++ rest) = _
      rw [hchars, List.cons_append] at hread ⊢
      simp only [Codec.option, skipBlanks_cons hblank]
      split
      next heq => exact absurd (List.cons.inj heq).1 hn
      next => rw [hread]; rfl
  fits_of_read cs o rest ho := by
    simp only [Codec.option] at ho
    split at ho
    next =>
      obtain ⟨tail, -, heq⟩ := map_eq_ok_iff.mp ho
      cases heq
      exact nofun
    next =>
      obtain ⟨⟨y, tail⟩, hread, heq⟩ := map_eq_ok_iff.mp ho
      cases heq
      intro x hx
      cases hx
      exact h.fits_of_read _ _ _ hread

/-! ### Objects -/

/-- `Absorbs member d members d'`: reading the members, each from its colon on, turns the draft `d`
into `d'`. -/
inductive Absorbs (member : String → δ → Reader δ) : δ → List (String × Value) → δ → Prop
  | nil (d : δ) : Absorbs member d [] d
  | cons {d d' d'' : δ} {k : String} {v : Value} {members : List (String × Value)}
      (hfirst : ∀ rest, IsSeparated rest → member k d (':' :: v.chars ++ rest) = .ok (d', rest))
      (hrest : Absorbs member d' members d'') : Absorbs member d ((k, v) :: members) d''

/-- The text of an object after its opening brace. -/
def objectTail : List (String × Value) → List Char
  | [] => ['\x7d']
  | (k, v) :: members => quote k ++ ':' :: v.chars ++ Value.moreMembers members

theorem chars_object (members : List (String × Value)) :
    (Value.object members).chars = '\x7b' :: objectTail members := by
  cases members with
  | nil => rfl
  | cons p members => rfl

theorem isSeparated_moreMembers (members : List (String × Value)) (rest : List Char) :
    IsSeparated (Value.moreMembers members ++ rest) := by
  cases members with
  | nil => exact .inr (.inr (.inr rfl))
  | cons p members => exact .inr (.inl rfl)

theorem length_lt_length_moreMembers (members : List (String × Value)) :
    members.length < (Value.moreMembers members).length := by
  induction members with
  | nil => exact Nat.one_pos
  | cons p members ih =>
    simp only [Value.moreMembers, List.cons_append, List.length_cons, List.length_append]
    omega

theorem nextKey_quote (k : String) (rest : List Char) :
    nextKey true (quote k ++ rest) = .ok (some k, rest) := by
  show (readText (quoteTail k ++ rest)).map _ = _
  rw [readText_quoteTail]
  rfl

theorem nextKey_comma_quote (k : String) (rest : List Char) :
    nextKey false (',' :: (quote k ++ rest)) = .ok (some k, rest) := by
  show (readText (quoteTail k ++ rest)).map _ = _
  rw [readText_quoteTail]
  rfl

section Members

variable {member : String → δ → Reader δ} {d d' : δ} {members : List (String × Value)}
  {rest : List Char} {n : Nat}

/-- The members after the first are read up to the closing brace. -/
theorem Absorbs.readMembers (h : Absorbs member d members d') (hn : members.length < n)
    (rest : List Char) :
    Json.readMembers member n false d (Value.moreMembers members ++ rest) = .ok (d', rest) := by
  induction h generalizing n with
  | nil d =>
    obtain ⟨n, rfl⟩ : ∃ m, n = m + 1 := Nat.exists_eq_add_one.mpr hn
    rfl
  | @cons d d₁ d' k v members hfirst _ ih =>
    obtain ⟨n, rfl⟩ : ∃ m, n = m + 1 :=
      Nat.exists_eq_add_one.mpr (Nat.lt_of_le_of_lt (Nat.zero_le _) hn)
    have htext : Value.moreMembers ((k, v) :: members) ++ rest
        = ',' :: (quote k ++ (':' :: v.chars ++ (Value.moreMembers members ++ rest))) := by
      simp only [Value.moreMembers, List.append_assoc, List.cons_append]
    have hmember := hfirst _ (isSeparated_moreMembers members rest)
    rw [htext, Json.readMembers, nextKey_comma_quote]
    show (member k d _ >>= _) = _
    rw [hmember]
    exact ih (Nat.lt_of_succ_lt_succ hn)

/-- An object is read whose members are absorbed. -/
theorem Absorbs.readObject (h : Absorbs member d members d') (rest : List Char) :
    Json.readObject member d (objectTail members ++ rest) = .ok (d', rest) := by
  cases h with
  | nil => rfl
  | @cons _ d₁ _ k v members hfirst hrest =>
    have htext : objectTail ((k, v) :: members) ++ rest
        = quote k ++ (':' :: v.chars ++ (Value.moreMembers members ++ rest)) := by
      simp only [objectTail, List.append_assoc, List.cons_append]
    have hmember := hfirst _ (isSeparated_moreMembers members rest)
    have hlength := length_lt_length_moreMembers members
    rw [Json.readObject, Json.readMembers, htext, nextKey_quote]
    show (member k d _ >>= _) = _
    rw [hmember]
    refine hrest.readMembers ?_ rest
    simp only [List.length_append, List.length_cons]
    omega

/-- What reading a member preserves holds after all members. -/
theorem readMembers_preserves {P : δ → Prop}
    (hmember : ∀ k d cs d' rest, P d → member k d cs = .ok (d', rest) → P d') {isFirst : Bool}
    {cs : List Char} (hd : P d) (h : Json.readMembers member n isFirst d cs = .ok (d', rest)) :
    P d' := by
  induction n generalizing isFirst d cs with
  | zero => cases h
  | succ n ih =>
    rw [Json.readMembers] at h
    obtain ⟨⟨- | key, cs'⟩, -, h⟩ := bind_eq_ok_iff.mp h
    · obtain ⟨rfl, -⟩ : d = d' ∧ cs' = rest := by simpa using h
      exact hd
    · obtain ⟨⟨d₁, cs₁⟩, hfirst, h⟩ := bind_eq_ok_iff.mp h
      exact ih (hmember key d cs' d₁ cs₁ hd hfirst) h

end Members

/-! ### Maps -/

/-- A key beyond all others is put at the end. -/
theorem alterSorted_concat {k : String} {f : Option β → β} {l : List (String × β)}
    (h : ∀ a ∈ l.map Prod.fst, a < k) : alterSorted k f l = l ++ [(k, f none)] := by
  induction l with
  | nil => rfl
  | cons p l ih =>
    obtain ⟨k', v⟩ := p
    have hlt : k' < k := h k' List.mem_cons_self
    have hne : k ≠ k' := fun heq => String.lt_irrefl _ (heq ▸ hlt)
    have hnot : ¬k < k' := fun hlt' => String.lt_irrefl _ (String.lt_trans hlt hlt')
    rw [alterSorted, if_neg hne, if_neg hnot, ih fun a ha => h a (List.mem_cons_of_mem _ ha)]
    rfl

theorem mem_alterSorted_value {k : String} {v x : β} {l : List (String × β)}
    (h : x ∈ (alterSorted k (fun _ => v) l).map Prod.snd) : x = v ∨ x ∈ l.map Prod.snd := by
  fun_induction alterSorted k (fun _ => v) l with
  | case1 => simpa using h
  | case2 w rest =>
    simp only [List.map_cons, List.mem_cons] at h ⊢
    exact h.imp_right .inr
  | case3 k' w rest hne hlt => simpa using h
  | case4 k' w rest hne hnot ih =>
    simp only [List.map_cons, List.mem_cons] at h ⊢
    obtain h | h := h
    · exact .inr (.inl h)
    · exact (ih h).imp_right .inr

/-- Reads a member of a map into the map. -/
def mapMember (c : Codec α) (key : String) (m : KeyMap α) (cs : List Char) :
    Except Problem (KeyMap α × List Char) := do
  let (x, cs) ← c.read (← readColon cs)
  return (m.insert key x, cs)

theorem absorbs_mapMember {c : Codec α} {fits : α → Prop} (h : c.Faithful fits)
    {es : List (String × α)} (m : KeyMap α)
    (hkeys : ((m.entries ++ es).map Prod.fst).Pairwise (· < ·)) (hes : ∀ p ∈ es, fits p.2) :
    ∃ m', Absorbs (mapMember c) m (es.map fun p => (p.1, c.write p.2)) m' ∧
      m'.entries = m.entries ++ es := by
  induction es generalizing m with
  | nil => exact ⟨m, .nil m, (List.append_nil _).symm⟩
  | cons p es ih =>
    obtain ⟨k, x⟩ := p
    obtain ⟨hx, hes⟩ := List.forall_mem_cons.mp hes
    -- the key is beyond those already read, so the entry is put at the end
    have hinsert : (m.insert k x).entries = m.entries ++ [(k, x)] := by
      refine alterSorted_concat fun a ha => ?_
      rw [List.map_append, List.pairwise_append] at hkeys
      exact hkeys.2.2 a ha k List.mem_cons_self
    have hkeys' : (((m.insert k x).entries ++ es).map Prod.fst).Pairwise (· < ·) := by
      rw [hinsert, List.append_assoc]
      exact hkeys
    obtain ⟨m', habsorbs, hentries⟩ := ih (m.insert k x) hkeys' hes
    refine ⟨m', .cons (fun rest hrest => ?_) habsorbs, ?_⟩
    · show (c.read ((c.write x).chars ++ rest) >>= _) = _
      rw [h.read_chars x hx rest hrest]
      rfl
    · rw [hentries, hinsert, List.append_assoc]
      rfl

theorem Codec.Faithful.map {c : Codec α} {fits : α → Prop} (h : c.Faithful fits) :
    (Codec.map c).Faithful fun m => ∀ x ∈ m.values, fits x where
  read_chars m hm rest _ := by
    obtain ⟨m', habsorbs, hentries⟩ := absorbs_mapMember h .empty m.ascending
      fun p hp => hm p.2 (List.mem_map_of_mem hp)
    obtain rfl : m' = m := KeyMap.ext hentries
    show (Codec.map c).read ((Value.object _).chars ++ rest) = _
    rw [chars_object]
    exact habsorbs.readObject rest
  fits_of_read cs m rest hread := by
    simp only [Codec.map] at hread
    split at hread
    next =>
      refine readMembers_preserves (P := fun m => ∀ x ∈ m.values, fits x) ?_
        (fun x hx => absurd hx List.not_mem_nil) hread
      intro k d cs d' rest hd hmember x hx
      obtain ⟨cs', -, hmember⟩ := bind_eq_ok_iff.mp hmember
      obtain ⟨⟨y, tail⟩, hy, heq⟩ := bind_eq_ok_iff.mp hmember
      cases heq
      obtain rfl | hx := mem_alterSorted_value hx
      · exact h.fits_of_read _ _ _ hy
      · exact hd x hx
    next => cases hread

end EmojiCatalog.Json
