import EmojiCatalog.Proofs.Json.Codec
import EmojiCatalog.Proofs.Json.Spelling
/-!
Values of any kind are passed over.

A text that the grammar calls a value is passed over up to its end (`IsValue.skipValue_append`),
whatever it is, however deep it nests, and whatever follows, as long as that does not go on as a
number.  The proof follows the grammar: each part takes the skipper from the turn and the brackets
that the part begins with to the separator after it, and gives back the brackets that it opened.
Every step consumes a character, so the number of characters left is fuel enough.
-/

namespace EmojiCatalog.Json

variable {cs ds bs rest : List Char} {c : Char}

/-! ### Blanks -/

theorem skipBlanks_append (h : IsBlanks bs) (cs : List Char) :
    skipBlanks (bs ++ cs) = skipBlanks cs :=
  List.dropWhile_append_of_pos h

theorem skipBlanks_append_cons (h : IsBlanks bs) (hc : isBlank c = false) (cs : List Char) :
    skipBlanks (bs ++ c :: cs) = c :: cs := by
  rw [skipBlanks_append h, skipBlanks_cons hc]

theorem IsBlanks.isSeparated (hbs : IsBlanks bs) (h : IsSeparated rest) :
    IsSeparated (bs ++ rest) := by
  cases bs with
  | nil => exact h
  | cons b bs => exact .inl (hbs b List.mem_cons_self)

/-- What begins with a comma or a closing bracket may follow a number. -/
theorem IsBlanks.isSeparated_cons (hbs : IsBlanks bs) (hc : c = ',' ∨ c = ']' ∨ c = '\x7d')
    (cs rest : List Char) : IsSeparated ((bs ++ c :: cs) ++ rest) := by
  rw [List.append_assoc]
  exact hbs.isSeparated (.inr hc)

/-! ### Quoted text -/

theorem readUnit_of_isUnit {n : Nat} (h : IsUnit n ds) (rest : List Char) :
    readUnit (ds ++ rest) = .ok (n, rest) := by
  cases h with
  | intro ha hb hc hd => simp only [List.cons_append, List.nil_append, readUnit, ha, hb, hc, hd]

theorem skipBody_escape_of_skipEscape (h : skipEscape cs = .ok rest) :
    skipBody ('\\' :: cs) = skipBody rest := by
  rw [skipBody, if_neg (by decide), if_pos rfl]
  split
  next p hp => cases h.symm.trans hp
  next rest' hp =>
    obtain rfl : rest = rest' := Except.ok.inj (h.symm.trans hp)
    rfl

theorem IsPiece.skipBody_append (h : IsPiece ds) (rest : List Char) :
    skipBody (ds ++ rest) = skipBody rest := by
  cases h with
  | @plain c hquote hslash hcontrol =>
    rw [List.singleton_append, skipBody, if_neg hquote, if_neg hslash, hcontrol,
      if_neg Bool.false_ne_true]
  | @short e c hshort =>
    refine skipBody_escape_of_skipEscape ?_
    show skipEscape (e :: rest) = _
    rw [skipEscape, hshort]
  | @unit n ds hunit =>
    refine skipBody_escape_of_skipEscape ?_
    show (readUnit (ds ++ rest)).map Prod.snd = _
    rw [readUnit_of_isUnit hunit]
    rfl

theorem skipBody_flatten {pieces : List (List Char)} (h : ∀ p ∈ pieces, IsPiece p)
    (rest : List Char) : skipBody (pieces.flatten ++ '"' :: rest) = .ok rest := by
  induction pieces with
  | nil => rw [List.flatten_nil, List.nil_append, skipBody, if_pos rfl]
  | cons p pieces ih =>
    obtain ⟨hp, hpieces⟩ := List.forall_mem_cons.mp h
    rw [List.flatten_cons, List.append_assoc, hp.skipBody_append, ih hpieces]

/-- What stands between quotes is passed over with its quotes. -/
theorem IsQuoted.exists_skipBody (h : IsQuoted cs) :
    ∃ body, cs = '"' :: body ∧ ∀ rest, skipBody (body ++ rest) = .ok rest := by
  obtain ⟨pieces, hpieces, rfl⟩ := h
  refine ⟨pieces.flatten ++ ['"'], rfl, fun rest => ?_⟩
  rw [List.append_assoc, List.singleton_append, skipBody_flatten hpieces]

/-! ### Numbers -/

theorem startsWithDigit_of_isSeparated (h : IsSeparated rest) : startsWithDigit rest = false := by
  cases rest with
  | nil => rfl
  | cons c rest => exact h.head_ne.2.2.2

theorem dropWhile_isDigit (h : startsWithDigit rest = false) :
    rest.dropWhile Char.isDigit = rest := by
  cases rest with
  | nil => rfl
  | cons c rest => exact List.dropWhile_cons_of_neg (Bool.eq_false_iff.mp h)

theorem dropWhile_isDigit_append (hds : ∀ c ∈ ds, c.isDigit = true)
    (h : startsWithDigit rest = false) : (ds ++ rest).dropWhile Char.isDigit = rest := by
  rw [List.dropWhile_append_of_pos hds, dropWhile_isDigit h]

theorem IsDigits.startsWithDigit (h : IsDigits ds) (rest : List Char) :
    startsWithDigit (ds ++ rest) = true := by
  obtain ⟨hne, hdigits⟩ := h
  cases ds with
  | nil => exact absurd rfl hne
  | cons c ds => exact hdigits c List.mem_cons_self

theorem exponentSign_append {sign : List Char} (hsign : sign = [] ∨ sign = ['+'] ∨ sign = ['-'])
    (hds : IsDigits ds) (rest : List Char) :
    (exponentSign (sign ++ (ds ++ rest))).2 = ds ++ rest := by
  obtain rfl | rfl | rfl := hsign
  · obtain ⟨hne, hdigits⟩ := hds
    cases ds with
    | nil => exact absurd rfl hne
    | cons c ds =>
      have hc := hdigits c List.mem_cons_self
      rw [List.nil_append, List.cons_append]
      unfold exponentSign
      split
      next heq => rw [(List.cons.inj heq).1] at hc; cases hc
      next heq => rw [(List.cons.inj heq).1] at hc; cases hc
      next => rfl
  · rfl
  · rfl

theorem skipExponent_append (h : IsExponent cs) (hrest : IsSeparated rest) :
    skipExponent (cs ++ rest) = .ok rest := by
  cases h with
  | absent =>
    cases rest with
    | nil => rfl
    | cons c rest =>
      obtain ⟨-, he, hE, -⟩ := hrest.head_ne
      rw [List.nil_append]
      unfold skipExponent
      split
      next heq => exact absurd (List.cons.inj heq).1 he
      next heq => exact absurd (List.cons.inj heq).1 hE
      next => rfl
  | @present mark sign ds hmark hsign hds =>
    have hsignEq := exponentSign_append hsign hds rest
    have hdrop := dropWhile_isDigit_append hds.2 (startsWithDigit_of_isSeparated hrest)
    have hdigit := hds.startsWithDigit rest
    obtain rfl | rfl := hmark
    all_goals
      rw [List.cons_append, List.append_assoc]
      simp only [skipExponent, hsignEq, hdigit, if_true, hdrop]

theorem IsExponent.head (h : IsExponent cs) (hrest : IsSeparated rest) :
    startsWithDigit (cs ++ rest) = false ∧ (cs ++ rest).head? ≠ some '.' := by
  cases h with
  | absent =>
    refine ⟨startsWithDigit_of_isSeparated hrest, fun hpoint => ?_⟩
    cases rest with
    | nil => cases hpoint
    | cons c rest => exact hrest.head_ne.1 (Option.some.inj hpoint)
  | present hmark =>
    obtain rfl | rfl := hmark
    all_goals exact ⟨rfl, fun hpoint => by cases hpoint⟩

theorem skipFraction_append (hf : IsFraction ds) (he : IsExponent cs) (hrest : IsSeparated rest) :
    skipFraction (ds ++ (cs ++ rest)) = .ok rest := by
  have hexponent := skipExponent_append he hrest
  obtain ⟨hdigit, hpoint⟩ := he.head hrest
  cases hf with
  | absent =>
    rw [List.nil_append]
    unfold skipFraction
    split
    next heq => rw [heq] at hpoint; exact absurd rfl hpoint
    next => exact hexponent
  | present hds =>
    rw [List.cons_append, skipFraction, hds.startsWithDigit, if_pos rfl,
      dropWhile_isDigit_append hds.2 hdigit, hexponent]

theorem IsFraction.startsWithDigit (hf : IsFraction ds) (he : IsExponent cs)
    (hrest : IsSeparated rest) : startsWithDigit (ds ++ (cs ++ rest)) = false := by
  cases hf with
  | absent => exact (he.head hrest).1
  | present => rfl

theorem skipUnsigned_append {integer : List Char} (hi : IsInteger integer) (hf : IsFraction ds)
    (he : IsExponent cs) (hrest : IsSeparated rest) :
    skipUnsigned (integer ++ (ds ++ (cs ++ rest))) = .ok rest := by
  have hfraction := skipFraction_append hf he hrest
  have hdigit := hf.startsWithDigit he hrest
  cases hi with
  | zero =>
    rw [List.singleton_append, skipUnsigned, if_pos rfl, hdigit, if_neg Bool.false_ne_true,
      hfraction]
  | digits hc hzero hds =>
    rw [List.cons_append, skipUnsigned, if_neg hzero, if_pos hc,
      dropWhile_isDigit_append hds hdigit, hfraction]

/-- A number begins with its sign or with a digit, and is passed over. -/
theorem IsNumeral.exists_skipNumeral (h : IsNumeral cs) :
    ∃ c ds, cs = c :: ds ∧ (c = '-' ∨ c.isDigit = true) ∧
      ∀ rest, IsSeparated rest → skipNumeral (cs ++ rest) = .ok rest := by
  cases h with
  | @intro sign integer fraction exponent hsign hi hf he =>
    have hskip : ∀ rest, IsSeparated rest →
        skipUnsigned ((integer ++ (fraction ++ exponent)) ++ rest) = .ok rest := by
      intro rest hrest
      rw [List.append_assoc, List.append_assoc]
      exact skipUnsigned_append hi hf he hrest
    obtain ⟨c, ds, hcs, hc⟩ : ∃ c ds, integer ++ (fraction ++ exponent) = c :: ds ∧
        c.isDigit = true := by
      cases hi with
      | zero => exact ⟨_, _, rfl, rfl⟩
      | digits hc _ _ => exact ⟨_, _, rfl, hc⟩
    rw [hcs] at hskip ⊢
    obtain rfl | rfl := hsign
    · refine ⟨c, ds, rfl, .inr hc, fun rest hrest => ?_⟩
      rw [List.nil_append, List.cons_append]
      unfold skipNumeral
      split
      next heq => rw [(List.cons.inj heq).1] at hc; cases hc
      next => exact hskip rest hrest
    · exact ⟨'-', c :: ds, rfl, .inl rfl, hskip⟩

/-! ### Values -/

/-- A scalar begins with none of the characters that mean something else, and is passed over. -/
theorem IsScalar.exists_skipScalar (h : IsScalar cs) :
    ∃ c ds, cs = c :: ds ∧ isBlank c = false ∧ c ≠ '[' ∧ c ≠ '\x7b' ∧ c ≠ ']' ∧
      ∀ rest, IsSeparated rest → skipScalar (cs ++ rest) = .ok rest := by
  cases h with
  | null | isTrue | isFalse =>
    exact ⟨_, _, rfl, rfl, by decide, by decide, by decide, fun _ _ => rfl⟩
  | quoted h =>
    obtain ⟨body, rfl, hskip⟩ := h.exists_skipBody
    exact ⟨_, _, rfl, rfl, by decide, by decide, by decide, fun rest _ => hskip rest⟩
  | numeral h =>
    obtain ⟨c, ds, rfl, hc, hskip⟩ := h.exists_skipNumeral
    have hne : ∀ d : Char, d ≠ '-' → d.isDigit = false → c ≠ d := by
      rintro d hminus hdigit rfl
      obtain rfl | hc := hc
      · exact hminus rfl
      · rw [hdigit] at hc; cases hc
    refine ⟨c, ds, rfl, ?_, hne _ (by decide) (by decide), hne _ (by decide) (by decide),
      hne _ (by decide) (by decide), fun rest hrest => ?_⟩
    · obtain rfl | hc := hc
      · rfl
      · exact isBlank_of_isDigit hc
    · have hnumber : (c = '-' || c.isDigit) = true := by
        obtain rfl | hc := hc
        · rfl
        · rw [hc, Bool.or_true]
      rw [List.cons_append]
      unfold skipScalar
      split
      next heq => exact absurd (List.cons.inj heq).1 (hne _ (by decide) (by decide))
      next heq => exact absurd (List.cons.inj heq).1 (hne _ (by decide) (by decide))
      next heq => exact absurd (List.cons.inj heq).1 (hne _ (by decide) (by decide))
      next heq => exact absurd (List.cons.inj heq).1 (hne _ (by decide) (by decide))
      next heq =>
        obtain ⟨rfl, rfl⟩ := List.cons.inj heq
        rw [hnumber, if_pos rfl]
        exact hskip rest hrest
      next heq => cases heq

namespace Part

/-- What comes next where the text of a part begins. -/
def turn : Part → Turn
  | value => .value
  | moreItems | moreMembers => .separator

/-- The brackets that are open where the text of a part begins. -/
def brackets : Part → List Bracket → List Bracket
  | value, outer => outer
  | moreItems, outer => .array :: outer
  | moreMembers, outer => .object :: outer

end Part

/-- The text begins with a character that neither is a blank nor closes an array. -/
def BeginsItem (cs : List Char) : Prop := ∃ c ds, cs = c :: ds ∧ isBlank c = false ∧ c ≠ ']'

theorem IsValue.beginsItem (h : IsValue cs) : BeginsItem cs := by
  cases h with
  | scalar h =>
    obtain ⟨c, ds, rfl, hblank, -, -, hclose, -⟩ := h.exists_skipScalar
    exact ⟨c, ds, rfl, hblank, hclose⟩
  | emptyArray | array | emptyObject | object => exact ⟨_, _, rfl, rfl, by decide⟩

theorem IsPart.isSeparated_moreItems (h : IsPart .moreItems cs) (rest : List Char) :
    IsSeparated (cs ++ rest) := by
  cases h with
  | closeArray hbs => exact hbs.isSeparated_cons (.inr (.inl rfl)) _ rest
  | nextItem hbs => exact hbs.isSeparated_cons (.inl rfl) _ rest

theorem IsPart.isSeparated_moreMembers (h : IsPart .moreMembers cs) (rest : List Char) :
    IsSeparated (cs ++ rest) := by
  cases h with
  | closeObject hbs => exact hbs.isSeparated_cons (.inr (.inr rfl)) _ rest
  | nextMember hbs => exact hbs.isSeparated_cons (.inl rfl) _ rest

/-- The character that opens a bracket. -/
def Bracket.opening : Bracket → Char
  | array => '['
  | object => '\x7b'

theorem Bracket.isBlank_closing (b : Bracket) : isBlank b.closing = false := by cases b <;> rfl

theorem Bracket.closing_ne (b : Bracket) : b.closing ≠ ',' := by cases b <;> decide

section Steps

variable {outer : List Bracket} {n : Nat}

theorem skipWithin_value_blanks (hbs : IsBlanks bs) (cs : List Char) :
    skipWithin (n + 1) .value outer (bs ++ cs) = skipWithin (n + 1) .value outer cs := by
  rw [skipWithin, skipWithin, skipBlanks_append hbs]

theorem skipWithin_scalar (h : IsScalar cs) (hrest : IsSeparated rest) :
    skipWithin (n + 1) .value outer (cs ++ rest) = skipWithin n .separator outer rest := by
  obtain ⟨c, ds, rfl, hblank, harray, hobject, -, hskip⟩ := h.exists_skipScalar
  have hscalar := hskip rest hrest
  rw [List.cons_append] at hscalar ⊢
  rw [skipWithin, skipBlanks_cons hblank]
  split
  next heq => exact absurd (List.cons.inj heq).1 harray
  next heq => exact absurd (List.cons.inj heq).1 hobject
  next => rw [hscalar]; rfl

/-- After an opening bracket comes the closing one, or whatever comes after a comma. -/
theorem skipWithin_opening (b : Bracket) (hds : skipBlanks ds = c :: cs) :
    skipWithin (n + 1) .value outer (b.opening :: ds)
      = if c = b.closing then skipWithin n .separator outer cs
        else skipWithin n b.afterComma (b :: outer) (c :: cs) := by
  have hopening : isBlank b.opening = false := by cases b <;> rfl
  rw [skipWithin, skipBlanks_cons hopening]
  split
  next heq =>
    obtain rfl : b = .array := by cases b <;> first | rfl | cases (List.cons.inj heq).1
    rw [← (List.cons.inj heq).2, hds]
    split
    next hclose =>
      obtain ⟨rfl, rfl⟩ := List.cons.inj hclose
      exact (if_pos rfl).symm
    next hopen =>
      have hc : c ≠ _ := fun hc => hopen cs (congrArg (· :: cs) hc)
      exact (if_neg hc).symm
  next heq =>
    obtain rfl : b = .object := by cases b <;> first | rfl | cases (List.cons.inj heq).1
    rw [← (List.cons.inj heq).2, hds]
    split
    next hclose =>
      obtain ⟨rfl, rfl⟩ := List.cons.inj hclose
      exact (if_pos rfl).symm
    next hopen =>
      have hc : c ≠ _ := fun hc => hopen cs (congrArg (· :: cs) hc)
      exact (if_neg hc).symm
  next harray hobject =>
    cases b with
    | array => exact absurd rfl (harray _)
    | object => exact absurd rfl (hobject _)

theorem skipWithin_separator (b : Bracket) (hds : skipBlanks ds = c :: cs) :
    skipWithin (n + 1) .separator (b :: outer) ds
      = if c = ',' then skipWithin n b.afterComma (b :: outer) cs
        else if c = b.closing then skipWithin n .separator outer cs
        else .error .malformed := by
  rw [skipWithin, hds]

theorem skipWithin_key {ks bs' : List Char} (hbs : IsBlanks bs) (hks : IsQuoted ks)
    (hbs' : IsBlanks bs') (cs : List Char) :
    skipWithin (n + 1) .key outer (bs ++ (ks ++ (bs' ++ ':' :: cs)))
      = skipWithin n .value outer cs := by
  obtain ⟨body, rfl, hskip⟩ := hks.exists_skipBody
  have hkey : skipKey (bs ++ ('"' :: body ++ (bs' ++ ':' :: cs))) = .ok cs := by
    rw [skipKey, List.cons_append, skipBlanks_append_cons hbs rfl]
    show (skipBody (body ++ (bs' ++ ':' :: cs)) >>= readColon) = _
    rw [hskip]
    show readColon (bs' ++ ':' :: cs) = _
    rw [readColon, skipBlanks_append_cons hbs' rfl]
    rfl
  rw [skipWithin, hkey]
  rfl

theorem skipWithin_empty (b : Bracket) (hbs : IsBlanks bs) (cs : List Char) :
    skipWithin (n + 1) .value outer (b.opening :: (bs ++ b.closing :: cs))
      = skipWithin n .separator outer cs :=
  (skipWithin_opening b (skipBlanks_append_cons hbs b.isBlank_closing cs)).trans (if_pos rfl)

theorem skipWithin_first (b : Bracket) (hbs : IsBlanks bs) (hblank : isBlank c = false)
    (hc : c ≠ b.closing) (cs : List Char) :
    skipWithin (n + 1) .value outer (b.opening :: (bs ++ c :: cs))
      = skipWithin n b.afterComma (b :: outer) (c :: cs) :=
  (skipWithin_opening b (skipBlanks_append_cons hbs hblank cs)).trans (if_neg hc)

theorem skipWithin_comma (b : Bracket) (hbs : IsBlanks bs) (cs : List Char) :
    skipWithin (n + 1) .separator (b :: outer) (bs ++ ',' :: cs)
      = skipWithin n b.afterComma (b :: outer) cs :=
  (skipWithin_separator b (skipBlanks_append_cons hbs rfl cs)).trans (if_pos rfl)

theorem skipWithin_closing (b : Bracket) (hbs : IsBlanks bs) (cs : List Char) :
    skipWithin (n + 1) .separator (b :: outer) (bs ++ b.closing :: cs)
      = skipWithin n .separator outer cs :=
  (skipWithin_separator b (skipBlanks_append_cons hbs b.isBlank_closing cs)).trans <|
    (if_neg b.closing_ne).trans (if_pos rfl)

/-- A value is passed over together with what follows it between the same brackets. -/
theorem skipWithin_value_append (outer : List Bracket) (n : Nat) {k l : Nat} {b : Bracket}
    (hbs : IsBlanks bs)
    (hcs : ∀ n outer rest, IsSeparated rest →
      skipWithin (n + k + 1) .value outer (cs ++ rest) = skipWithin n .separator outer rest)
    (hds : ∀ n outer rest, IsSeparated rest →
      skipWithin (n + l + 1) .separator (b :: outer) (ds ++ rest)
        = skipWithin n .separator outer rest)
    (hseparated : ∀ rest, IsSeparated (ds ++ rest)) (hrest : IsSeparated rest) :
    skipWithin (n + (l + k + 1) + 1) .value (b :: outer) (bs ++ (cs ++ (ds ++ rest)))
      = skipWithin n .separator outer rest := by
  have hfuel : n + (l + k + 1) + 1 = n + l + 1 + k + 1 := by omega
  rw [hfuel, skipWithin_value_blanks hbs, hcs _ _ _ (hseparated rest)]
  exact hds n outer rest hrest

end Steps

/-- Each part is passed over in no more steps than it has characters. -/
theorem IsPart.exists_skipWithin {p : Part} (h : IsPart p cs) :
    ∃ k < cs.length, ∀ n outer rest, IsSeparated rest →
      skipWithin (n + k + 1) p.turn (p.brackets outer) (cs ++ rest)
        = skipWithin n .separator outer rest := by
  induction h with
  | @scalar cs h =>
    obtain ⟨c, ds, rfl, -⟩ := h.exists_skipScalar
    exact ⟨0, Nat.succ_pos _, fun n outer rest hrest => skipWithin_scalar h hrest⟩
  | emptyArray hbs =>
    refine ⟨0, Nat.succ_pos _, fun n outer rest _ => ?_⟩
    rw [List.cons_append, List.append_assoc]
    exact skipWithin_empty .array hbs rest
  | emptyObject hbs =>
    refine ⟨0, Nat.succ_pos _, fun n outer rest _ => ?_⟩
    rw [List.cons_append, List.append_assoc]
    exact skipWithin_empty .object hbs rest
  | closeArray hbs =>
    refine ⟨0, by rw [List.length_append]; exact Nat.succ_pos _, fun n outer rest _ => ?_⟩
    rw [List.append_assoc]
    exact skipWithin_closing .array hbs rest
  | closeObject hbs =>
    refine ⟨0, by rw [List.length_append]; exact Nat.succ_pos _, fun n outer rest _ => ?_⟩
    rw [List.append_assoc]
    exact skipWithin_closing .object hbs rest
  | @array bs cs ds hbs hcs hds ihcs ihds =>
    obtain ⟨k, hk, hskip⟩ := ihcs
    obtain ⟨l, hl, hmore⟩ := ihds
    obtain ⟨c, cs', rfl, hblank, hc⟩ := IsValue.beginsItem hcs
    refine ⟨l + k + 1 + 1, ?_, fun n outer rest hrest => ?_⟩
    · simp only [List.length_cons, List.length_append] at hk ⊢
      omega
    · have hvalue := skipWithin_value_append outer n isBlanks_nil hskip hmore
        hds.isSeparated_moreItems hrest
      simp only [List.cons_append, List.append_assoc, List.nil_append] at hvalue ⊢
      exact (skipWithin_first .array hbs hblank hc _).trans hvalue
  | @nextItem bs bs' cs ds hbs hbs' hcs hds ihcs ihds =>
    obtain ⟨k, hk, hskip⟩ := ihcs
    obtain ⟨l, hl, hmore⟩ := ihds
    refine ⟨l + k + 1 + 1, ?_, fun n outer rest hrest => ?_⟩
    · simp only [List.length_cons, List.length_append]
      omega
    · simp only [List.cons_append, List.append_assoc]
      exact (skipWithin_comma .array hbs _).trans <|
        skipWithin_value_append outer n hbs' hskip hmore hds.isSeparated_moreItems hrest
  | @object bs ks bs' bs'' cs ds hbs hks hbs' hbs'' hcs hds ihcs ihds =>
    obtain ⟨k, hk, hskip⟩ := ihcs
    obtain ⟨l, hl, hmore⟩ := ihds
    obtain ⟨body, rfl, -⟩ := hks.exists_skipBody
    refine ⟨l + k + 1 + 1 + 1, ?_, fun n outer rest hrest => ?_⟩
    · simp only [List.length_cons, List.length_append]
      omega
    · simp only [List.cons_append, List.append_assoc]
      exact (skipWithin_first .object hbs rfl (by decide) _).trans <|
        (skipWithin_key isBlanks_nil hks hbs' _).trans <|
        skipWithin_value_append outer n hbs'' hskip hmore hds.isSeparated_moreMembers hrest
  | @nextMember bs bs₁ ks bs' bs'' cs ds hbs hbs₁ hks hbs' hbs'' hcs hds ihcs ihds =>
    obtain ⟨k, hk, hskip⟩ := ihcs
    obtain ⟨l, hl, hmore⟩ := ihds
    refine ⟨l + k + 1 + 1 + 1, ?_, fun n outer rest hrest => ?_⟩
    · simp only [List.length_cons, List.length_append]
      omega
    · simp only [List.cons_append, List.append_assoc]
      exact (skipWithin_comma .object hbs _).trans <| (skipWithin_key hbs₁ hks hbs' _).trans <|
        skipWithin_value_append outer n hbs'' hskip hmore hds.isSeparated_moreMembers hrest

/-- A value is passed over with the blanks before it, whatever it is. -/
theorem IsValue.skipValue_append (h : IsValue cs) (hbs : IsBlanks bs) (hrest : IsSeparated rest) :
    skipValue (bs ++ (cs ++ rest)) = .ok rest := by
  obtain ⟨k, hk, hskip⟩ := h.exists_skipWithin
  have hfuel : (bs ++ (cs ++ rest)).length + 1
      = (bs.length + (cs.length - (k + 1)) + rest.length) + 1 + k + 1 := by
    simp only [List.length_append]
    omega
  rw [skipValue, hfuel, skipWithin_value_blanks hbs]
  exact hskip _ [] rest hrest

end EmojiCatalog.Json
