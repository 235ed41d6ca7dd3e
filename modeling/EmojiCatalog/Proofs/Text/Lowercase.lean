import EmojiCatalog.SumOf
import EmojiCatalog.Text.Lowercase
import Mathlib.Data.List.Infix
import Mathlib.Data.List.TakeWhile
/-!
How long a lowercased text is, and what becomes of a passage of it.

Every character is lowercased to at least one character and to no more than it takes bytes in UTF-8:
the only one that becomes two, `İ`, takes two bytes.  So a lowercased text has at least as many
characters as the text, and at most as many as the text has bytes (`length_lowercaseChars_le`).

A passage of a text is lowercased where it stands (`lowercaseWithin`), and the text is lowercased
passage by passage (`lowercaseChars_append`).  What stands around a passage matters to its capital
sigmas alone.  The passage therefore has the same lowercase form as by itself exactly if each of its
sigmas ends a word by itself as it does where it stands (`lowercaseWithin_eq_iff`), which can only
fail for a sigma that nothing but case-ignorable characters separates from the passage's edge.
-/

namespace EmojiCatalog.Text

/-! ### Lengths -/

theorem length_lowerChar_pos (c : Char) : 0 < (lowerChar c).length := by
  unfold lowerChar
  split
  · exact Nat.succ_pos 1
  · exact Nat.one_pos

theorem length_lowerChar_le (c : Char) : (lowerChar c).length ≤ c.utf8Size := by
  unfold lowerChar
  split
  next h =>
    rw [h]
    decide
  next => exact c.utf8Size_pos

theorem length_le_length_lowercaseAux (before cs : List Char) :
    cs.length ≤ (lowercaseAux before cs).length := by
  induction cs generalizing before with
  | nil => exact Nat.le_refl 0
  | cons c cs ih =>
    rw [lowercaseAux, List.length_append, List.length_cons, Nat.add_comm]
    refine Nat.add_le_add ?_ (ih _)
    split
    · exact Nat.le_refl 1
    · exact length_lowerChar_pos c

theorem length_lowercaseAux_le (before cs : List Char) :
    (lowercaseAux before cs).length ≤ sumOf Char.utf8Size cs := by
  induction cs generalizing before with
  | nil => exact Nat.le_refl 0
  | cons c cs ih =>
    rw [lowercaseAux, List.length_append, sumOf_cons]
    refine Nat.add_le_add ?_ (ih _)
    split
    · exact c.utf8Size_pos
    · exact length_lowerChar_le c

theorem sumOf_utf8Size (cs : List Char) :
    sumOf Char.utf8Size cs = (String.ofList cs).utf8ByteSize := by
  induction cs with
  | nil => rfl
  | cons c cs ih =>
    rw [sumOf_cons, ih, String.ofList_cons, String.utf8ByteSize_append,
      String.utf8ByteSize_singleton]

/-- Lowercasing does not lose characters. -/
theorem length_le_length_lowercaseChars (cs : List Char) :
    cs.length ≤ (lowercaseChars cs).length :=
  length_le_length_lowercaseAux [] cs

/-- A lowercased text has no more characters than the text has bytes. -/
theorem length_lowercaseChars_le (s : String) :
    (lowercaseChars s.toList).length ≤ s.utf8ByteSize := by
  have h := length_lowercaseAux_le [] s.toList
  rwa [sumOf_utf8Size, String.ofList_toList] at h

theorem lowercaseChars_ne_nil {s : String} (h : s ≠ "") : lowercaseChars s.toList ≠ [] := by
  have hpos : 0 < s.toList.length := List.length_pos_of_ne_nil (mt String.toList_eq_nil_iff.mp h)
  exact List.ne_nil_of_length_pos (Nat.lt_of_lt_of_le hpos (length_le_length_lowercaseChars _))

/-! ### Passages -/

/-- Lowercases a passage, given what stands before it (nearest first) and after it. -/
def lowercaseWithin (before after : List Char) : List Char → List Char
  | [] => []
  | c :: rest =>
    (if c = capitalSigma then [lowerSigma before (rest ++ after)] else lowerChar c)
      ++ lowercaseWithin (c :: before) after rest

theorem lowercaseAux_append (before cs after : List Char) :
    lowercaseAux before (cs ++ after)
      = lowercaseWithin before after cs ++ lowercaseAux (cs.reverse ++ before) after := by
  induction cs generalizing before with
  | nil => rfl
  | cons c cs ih =>
    rw [List.cons_append, lowercaseAux, lowercaseWithin, ih, List.append_assoc, List.reverse_cons,
      List.append_assoc]
    rfl

theorem lowercaseAux_eq_lowercaseWithin (before cs : List Char) :
    lowercaseAux before cs = lowercaseWithin before [] cs := by
  have h := lowercaseAux_append before cs []
  rwa [List.append_nil, lowercaseAux, List.append_nil] at h

/-- A text is lowercased passage by passage. -/
theorem lowercaseChars_append (before passage after : List Char) :
    lowercaseChars (before ++ passage ++ after)
      = lowercaseWithin [] (passage ++ after) before
        ++ lowercaseWithin before.reverse after passage
        ++ lowercaseWithin (passage.reverse ++ before.reverse) [] after := by
  rw [lowercaseChars, List.append_assoc, lowercaseAux_append, lowercaseAux_append,
    lowercaseAux_eq_lowercaseWithin, List.append_nil, List.append_assoc]

/-- The lowercase form that a passage has where it stands is in that of the text. -/
theorem lowercaseWithin_isInfix (before passage after : List Char) :
    lowercaseWithin before.reverse after passage
      <:+: lowercaseChars (before ++ passage ++ after) := by
  rw [lowercaseChars_append]
  exact List.infix_append _ _ _

/-! ### Sigmas at the edges of a passage -/

/-- Each capital sigma of a passage ends a word by itself exactly if it does where the passage
stands. -/
def SigmasKeep (before passage after : List Char) : Prop :=
  ∀ left right, passage = left ++ capitalSigma :: right →
    lowerSigma (left.reverse ++ before.reverse) (right ++ after) = lowerSigma left.reverse right

/-- What is asked of the sigmas of a passage is asked of its first character and of the rest. -/
theorem forall_sigma_cons {p : List Char → List Char → Prop} {c : Char} {cs : List Char} :
    (∀ left right, c :: cs = left ++ capitalSigma :: right → p left right) ↔
      (c = capitalSigma → p [] cs) ∧
        ∀ left right, cs = left ++ capitalSigma :: right → p (c :: left) right := by
  constructor
  · intro h
    refine ⟨fun hc => h [] cs (by rw [hc]; rfl), fun left right hcs => ?_⟩
    exact h (c :: left) right (by rw [hcs]; rfl)
  · rintro ⟨hhead, hrest⟩ left right hsplit
    cases left with
    | nil =>
      obtain ⟨hc, rfl⟩ := List.cons.inj hsplit
      exact hhead hc
    | cons d left =>
      obtain ⟨rfl, hcs⟩ := List.cons.inj hsplit
      exact hrest left right hcs

/-- Of the characters already passed, `inner` belong to the passage and `outer` do not. -/
theorem lowercaseWithin_append_eq_iff (inner outer after cs : List Char) :
    lowercaseWithin (inner ++ outer) after cs = lowercaseWithin inner [] cs ↔
      ∀ left right, cs = left ++ capitalSigma :: right →
        lowerSigma (left.reverse ++ (inner ++ outer)) (right ++ after)
          = lowerSigma (left.reverse ++ inner) right := by
  induction cs generalizing inner with
  | nil => exact ⟨fun _ _ _ h => absurd h.symm (by simp), fun _ => rfl⟩
  | cons c cs ih =>
    have hih := ih (c :: inner)
    rw [forall_sigma_cons, lowercaseWithin, lowercaseWithin, List.append_nil]
    simp only [List.reverse_cons, List.append_assoc, List.singleton_append]
    rw [← List.cons_append, ← hih]
    split
    next hc => simp [hc]
    next hc => simp [hc]

/-- **A passage is lowercased where it stands as it is by itself** exactly if its sigmas keep their
form. -/
theorem lowercaseWithin_eq_iff {before passage after : List Char} :
    lowercaseWithin before.reverse after passage = lowercaseChars passage
      ↔ SigmasKeep before passage after := by
  have h := lowercaseWithin_append_eq_iff [] before.reverse after passage
  simp only [List.nil_append, List.append_nil] at h
  rw [lowercaseChars, lowercaseAux_eq_lowercaseWithin, h]
  rfl

/-! ### What keeps a sigma -/

/-- What follows is not looked at behind a character that is not case-ignorable, and makes no
difference where nothing cased follows. -/
theorem startsCased_append {cs more : List Char}
    (h : startsCased more = true → ∃ c ∈ cs, isCaseIgnorable c = false) :
    startsCased (cs ++ more) = startsCased cs := by
  unfold startsCased
  rw [List.dropWhile_append]
  cases hcs : cs.dropWhile isCaseIgnorable with
  | nil =>
    have hmore : startsCased more = false := by
      refine Bool.eq_false_iff.mpr fun hcased => ?_
      obtain ⟨c, hc, hnot⟩ := h hcased
      rw [List.dropWhile_eq_nil_iff.mp hcs c hc] at hnot
      cases hnot
    exact hmore
  | cons c rest => rfl

/-- A capital sigma can only change its form by a cased character that nothing but case-ignorable
ones of the passage separates from it. -/
theorem sigmasKeep_of_apart {before passage after : List Char}
    (h : ∀ left right, passage = left ++ capitalSigma :: right →
      (startsCased before.reverse = true → ∃ c ∈ left, isCaseIgnorable c = false) ∧
      (startsCased after = true → ∃ c ∈ right, isCaseIgnorable c = false)) :
    SigmasKeep before passage after := by
  intro left right hsplit
  obtain ⟨hleft, hright⟩ := h left right hsplit
  have hbefore : startsCased (left.reverse ++ before.reverse) = startsCased left.reverse := by
    refine startsCased_append fun hcased => ?_
    obtain ⟨c, hc, hnot⟩ := hleft hcased
    exact ⟨c, List.mem_reverse.mpr hc, hnot⟩
  rw [lowerSigma, lowerSigma, hbefore, startsCased_append hright]

theorem sigmasKeep_of_not_mem {before passage after : List Char} (h : capitalSigma ∉ passage) :
    SigmasKeep before passage after :=
  sigmasKeep_of_apart fun left right hsplit => absurd (by rw [hsplit]; simp) h

end EmojiCatalog.Text
