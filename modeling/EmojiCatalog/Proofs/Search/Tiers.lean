import EmojiCatalog.Proofs.Search.Blocks
import EmojiCatalog.Proofs.Text.Lowercase
/-!
The tiers of matches.

A name is worth 100, 80 or 60 points when it is the query, begins with it or has it further inside,
and a bonus of one point for each byte that it is shorter than twenty.  The tiers are twenty points
apart, so it takes a name without bytes to make up for one.  A name that matches has a byte, and two
if it is longer than the query, both lowercased: the bytes are those of the name as written, but
lowercasing gives no more characters than there are bytes (`Text.length_lowercaseChars_le`).

The scores of the tiers are therefore apart from each other, whatever the names
(`relevance_of_eq`, `relevance_of_isPrefix`, `relevance_of_isInfix`), and ranking by score is
ranking by tiers first.
-/

namespace EmojiCatalog

/-! ### Scores -/

theorem lengthBonus_le {name : String} {n : Nat} (h : n ≤ name.utf8ByteSize) :
    lengthBonus name ≤ 20 - n :=
  Nat.sub_le_sub_left h 20

section Relevance

variable {needle : List Char} {name : String}

/-- What is found in a lowercased name, and is not all of it, leaves two bytes for the name. -/
theorem two_le_utf8ByteSize (hneedle : needle ≠ [])
    (hpart : needle <:+: Text.lowercaseChars name.toList)
    (hne : needle ≠ Text.lowercaseChars name.toList) : 2 ≤ name.utf8ByteSize := by
  have hpos : 0 < needle.length := List.length_pos_of_ne_nil hneedle
  have hlt : needle.length < (Text.lowercaseChars name.toList).length :=
    Nat.lt_of_le_of_ne hpart.length_le fun h => hne (hpart.eq_of_length h)
  have hle := Text.length_lowercaseChars_le name
  omega

theorem relevance_of_eq (hneedle : needle ≠ []) (h : needle = Text.lowercaseChars name.toList) :
    100 ≤ relevance needle name ∧ relevance needle name ≤ 119 := by
  have hbytes : 1 ≤ name.utf8ByteSize := by
    have hpos : 0 < needle.length := List.length_pos_of_ne_nil hneedle
    rw [h] at hpos
    exact Nat.le_trans hpos (Text.length_lowercaseChars_le name)
  have hbonus := lengthBonus_le hbytes
  have hbase : basePoints needle (Text.lowercaseChars name.toList) = 100 := if_pos h
  rw [relevance, hbase]
  omega

theorem relevance_of_isPrefix (hneedle : needle ≠ [])
    (hne : needle ≠ Text.lowercaseChars name.toList)
    (h : needle <+: Text.lowercaseChars name.toList) :
    80 ≤ relevance needle name ∧ relevance needle name ≤ 98 := by
  have hbonus := lengthBonus_le (two_le_utf8ByteSize hneedle h.isInfix hne)
  have hbase : basePoints needle (Text.lowercaseChars name.toList) = 80 := by
    rw [basePoints, if_neg hne, if_pos (List.isPrefixOf_iff_prefix.mpr h)]
  rw [relevance, hbase]
  omega

theorem relevance_of_isInfix (hneedle : needle ≠ [])
    (hnot : ¬needle <+: Text.lowercaseChars name.toList)
    (h : needle <:+: Text.lowercaseChars name.toList) :
    60 ≤ relevance needle name ∧ relevance needle name ≤ 78 := by
  have hne : needle ≠ Text.lowercaseChars name.toList :=
    fun heq => hnot (heq ▸ List.prefix_refl _)
  have hbonus := lengthBonus_le (two_le_utf8ByteSize hneedle h hne)
  have hbase : basePoints needle (Text.lowercaseChars name.toList) = 60 := by
    rw [basePoints, if_neg hne, if_neg (mt List.isPrefixOf_iff_prefix.mp hnot),
      if_pos ((occursIn_iff _ _).mpr h)]
  rw [relevance, hbase]
  omega

/-- The score of a name that matches tells in which way it does. -/
theorem relevance_tells (hneedle : needle ≠ [])
    (hpart : needle <:+: Text.lowercaseChars name.toList) :
    (needle = Text.lowercaseChars name.toList ↔ 100 ≤ relevance needle name) ∧
    (needle <+: Text.lowercaseChars name.toList ∧ needle ≠ Text.lowercaseChars name.toList ↔
      80 ≤ relevance needle name ∧ relevance needle name < 100) ∧
    (needle <:+: Text.lowercaseChars name.toList ∧ ¬needle <+: Text.lowercaseChars name.toList ↔
      relevance needle name < 80) := by
  by_cases hwhole : needle = Text.lowercaseChars name.toList
  · have hscore := relevance_of_eq hneedle hwhole
    have hstart : needle <+: Text.lowercaseChars name.toList := hwhole ▸ List.prefix_refl _
    exact ⟨iff_of_true hwhole hscore.1, iff_of_false (fun h => h.2 hwhole) (by omega),
      iff_of_false (fun h => h.2 hstart) (by omega)⟩
  · by_cases hstart : needle <+: Text.lowercaseChars name.toList
    · have hscore := relevance_of_isPrefix hneedle hwhole hstart
      exact ⟨iff_of_false hwhole (by omega), iff_of_true ⟨hstart, hwhole⟩ (by omega),
        iff_of_false (fun h => h.2 hstart) (by omega)⟩
    · have hscore := relevance_of_isInfix hneedle hstart hpart
      exact ⟨iff_of_false hwhole (by omega), iff_of_false (fun h => hstart h.1) (by omega),
        iff_of_true ⟨hpart, hstart⟩ (by omega)⟩

end Relevance

/-! ### What is found -/

section Found

variable {c : Catalog} {q : Query} {hits : List Hit}

theorem cut_sublist {α : Type} (limit : Nat) (xs : List α) : (cut limit xs).Sublist xs := by
  unfold cut
  split
  · exact List.Sublist.refl xs
  · exact List.take_sublist _ _

/-- The relevance never increases along the hits. -/
theorem descending_of_search (h : c.search q = .ok hits) :
    hits.Pairwise fun a b => b.relevance ≤ a.relevance := by
  obtain rfl | ⟨-, scopes, -, rfl⟩ := Catalog.exists_scopes_of_search h
  · exact List.Pairwise.nil
  · exact (ranked_rank _).descending.sublist (cut_sublist _ _)

/-- Every hit has the relevance of its subcategory, in whose name the query stands. -/
theorem infix_of_mem_search (h : c.search q = .ok hits) {x : Hit} (hx : x ∈ hits) :
    let needle := Text.lowercaseChars q.text.toList
    needle ≠ [] ∧ needle <:+: Text.lowercaseChars x.subcategory.toList ∧
      x.relevance = relevance needle x.subcategory := by
  intro needle
  obtain rfl | ⟨htext, scopes, hscopes, rfl⟩ := Catalog.exists_scopes_of_search h
  · cases hx
  · have hmem := (ranked_rank _).perm.mem_iff.mp ((cut_sublist _ _).subset hx)
    obtain ⟨s, hs, hx⟩ := List.mem_flatMap.mp hmem
    obtain ⟨item, -, rfl⟩ := List.mem_map.mp hx
    exact ⟨Text.lowercaseChars_ne_nil htext, hscopes s hs, rfl⟩

end Found

/-- A list by descending score falls into two sections at any score. -/
theorem eq_filter_append_filter {α : Type} {score : α → Nat} {xs : List α}
    (h : xs.Pairwise fun a b => score b ≤ score a) (n : Nat) :
    xs = xs.filter (n ≤ score ·) ++ xs.filter (score · < n) := by
  induction xs with
  | nil => rfl
  | cons x xs ih =>
    obtain ⟨hx, hxs⟩ := List.pairwise_cons.mp h
    by_cases hn : n ≤ score x
    · rw [List.filter_cons_of_pos (by simpa using hn),
        List.filter_cons_of_neg (by simpa using hn), List.cons_append, ← ih hxs]
    · -- the first has the greatest score, so the first section is empty
      have hless : ∀ y ∈ x :: xs, score y < n := by
        intro y hy
        rcases List.mem_cons.mp hy with rfl | hy
        · exact Nat.lt_of_not_le hn
        · exact Nat.lt_of_le_of_lt (hx y hy) (Nat.lt_of_not_le hn)
      rw [List.filter_eq_nil_iff.mpr fun y hy => by simpa using hless y hy,
        List.filter_eq_self.mpr fun y hy => by simpa using hless y hy, List.nil_append]

/-- A list by descending score falls into three sections at any two scores. -/
theorem eq_sections {α : Type} {score : α → Nat} {xs : List α}
    (h : xs.Pairwise fun a b => score b ≤ score a) {m n : Nat} (hmn : m ≤ n) :
    xs = xs.filter (n ≤ score ·) ++ xs.filter (fun x => m ≤ score x && score x < n)
      ++ xs.filter (score · < m) := by
  have hmiddle : (xs.filter (score · < n)).filter (m ≤ score ·)
      = xs.filter fun x => m ≤ score x && score x < n := List.filter_filter
  have hlast : (xs.filter (score · < n)).filter (score · < m) = xs.filter (score · < m) := by
    rw [List.filter_filter]
    refine List.filter_congr fun x _ => ?_
    simp only [Bool.and_eq_left_iff_imp, decide_eq_true_eq]
    omega
  calc xs = xs.filter (n ≤ score ·) ++ xs.filter (score · < n) := eq_filter_append_filter h n
    _ = xs.filter (n ≤ score ·) ++ ((xs.filter fun x => m ≤ score x && score x < n)
          ++ xs.filter (score · < m)) := by
      rw [eq_filter_append_filter (h.filter (score · < n)) m, hmiddle, hlast]
    _ = _ := (List.append_assoc _ _ _).symm

/-! ### The result -/

/-- **The length bonus never inverts the tiers.**  In every hit the query stands in the name, both
lowercased, so at least 60 points are scored.  Names that are the query score from 100 to 119, those
that go on behind it from 80 to 98, and those that only have it further inside from 60 to 78; and
the hits are listed tier by tier. -/
theorem tiers_stay_apart {c : Catalog} {q : Query} {hits : List Hit} (h : c.search q = .ok hits) :
    let needle := Text.lowercaseChars q.text.toList
    let lowered (x : Hit) : List Char := Text.lowercaseChars x.subcategory.toList
    let isWhole (x : Hit) : Bool := needle = lowered x
    let isStart (x : Hit) : Bool := needle <+: lowered x ∧ needle ≠ lowered x
    let isInside (x : Hit) : Bool := needle <:+: lowered x ∧ ¬needle <+: lowered x
    (∀ x ∈ hits, 60 ≤ x.relevance ∧ (isWhole x ∨ isStart x ∨ isInside x) ∧
      (isWhole x → 100 ≤ x.relevance ∧ x.relevance ≤ 119) ∧
      (isStart x → 80 ≤ x.relevance ∧ x.relevance ≤ 98) ∧
      (isInside x → 60 ≤ x.relevance ∧ x.relevance ≤ 78)) ∧
    hits = hits.filter isWhole ++ hits.filter isStart ++ hits.filter isInside := by
  intro needle lowered isWhole isStart isInside
  have hfound := fun x hx => infix_of_mem_search (x := x) h hx
  have htells : ∀ x ∈ hits, isWhole x = decide (100 ≤ x.relevance) ∧
      isStart x = (decide (80 ≤ x.relevance) && decide (x.relevance < 100)) ∧
      isInside x = decide (x.relevance < 80) := by
    intro x hx
    obtain ⟨hne, hpart, hrelevance⟩ := hfound x hx
    obtain ⟨hwhole, hstart, hinside⟩ := relevance_tells hne hpart
    rw [← hrelevance] at hwhole hstart hinside
    rw [← Bool.decide_and]
    exact ⟨decide_eq_decide.mpr hwhole, decide_eq_decide.mpr hstart, decide_eq_decide.mpr hinside⟩
  constructor
  · intro x hx
    obtain ⟨hne, hpart, hrelevance⟩ := hfound x hx
    have hwhole : isWhole x → 100 ≤ x.relevance ∧ x.relevance ≤ 119 := fun htier =>
      hrelevance ▸ relevance_of_eq hne (of_decide_eq_true htier)
    have hstart : isStart x → 80 ≤ x.relevance ∧ x.relevance ≤ 98 := fun htier =>
      have hprefix := of_decide_eq_true htier
      hrelevance ▸ relevance_of_isPrefix hne hprefix.2 hprefix.1
    have hinside : isInside x → 60 ≤ x.relevance ∧ x.relevance ≤ 78 := fun htier =>
      have hnot := of_decide_eq_true htier
      hrelevance ▸ relevance_of_isInfix hne hnot.2 hnot.1
    have htier : isWhole x ∨ isStart x ∨ isInside x := by
      obtain ⟨hwhole, hstart, hinside⟩ := htells x hx
      rw [hwhole, hstart, hinside, Bool.and_eq_true]
      simp only [decide_eq_true_eq]
      omega
    refine ⟨?_, htier, hwhole, hstart, hinside⟩
    rcases htier with htier | htier | htier
    · exact Nat.le_trans (by decide) (hwhole htier).1
    · exact Nat.le_trans (by decide) (hstart htier).1
    · exact (hinside htier).1
  · rw [List.filter_congr fun x hx => (htells x hx).1,
      List.filter_congr fun x hx => (htells x hx).2.1,
      List.filter_congr fun x hx => (htells x hx).2.2]
    exact eq_sections (descending_of_search h) (by decide)

/-- Names of one letter or two, lowercased to as many letters or to more. -/
def Catalog.letters : Catalog :=
  ofCategories [.ofSubcategories "letters"
    [⟨"aİ", ["inside"]⟩, ⟨"İ", ["start"]⟩, ⟨"I", ["whole"]⟩]]

/-- The bonus makes up for no tier, although `İ` is longer when it is lowercased. -/
theorem tiers_stay_apart_letters :
    let hits : List Hit := [⟨"whole", "letters", "I", 119⟩, ⟨"start", "letters", "İ", 98⟩,
      ⟨"inside", "letters", "aİ", 77⟩]
    let needle := Text.lowercaseChars "i".toList
    let lowered (x : Hit) : List Char := Text.lowercaseChars x.subcategory.toList
    Catalog.letters.search { text := "i" } = .ok hits ∧ (∀ x ∈ hits, 60 ≤ x.relevance) ∧
      hits = hits.filter (fun x => needle = lowered x)
        ++ hits.filter (fun x => needle <+: lowered x ∧ needle ≠ lowered x)
        ++ hits.filter fun x => needle <:+: lowered x ∧ ¬needle <+: lowered x := by
  intro hits needle lowered
  have hsearch : Catalog.letters.search { text := "i" } = .ok hits := by
    rw [Catalog.letters.search_unfiltered (by decide)]
    exact congrArg Except.ok ((ranked_rank _).unique (by decide +kernel))
  obtain ⟨hscores, hsections⟩ := tiers_stay_apart hsearch
  exact ⟨hsearch, fun x hx => (hscores x hx).1, hsections⟩

end EmojiCatalog
