import EmojiCatalog.Proofs.Search.Blocks
import EmojiCatalog.Proofs.Text.Lowercase
/-!
Searching for a passage of a name.

A search compares lowercased texts, so a passage of a name finds the name's items exactly if its
lowercase form stands in that of the name (`Catalog.block_of_search`).  One might think that it
always does.  But a capital sigma is lowercased by what stands around it, and a passage that cuts a
word takes that away: `ΑΣ` becomes `ας`, which does not stand in `ασα`, the lowercase form of `ΑΣΑ`
(`cut_word_is_missed`).  So typing on can make a name match that did not match before.

Nothing else can go wrong.  A passage whose sigmas keep their form is found where it stands
(`passages_are_found`), among them every passage without a capital sigma.
-/

namespace EmojiCatalog

/-! ### The block of a subcategory -/

/-- A subcategory whose name has the lowercased text in its lowercase form is found with all its
items together, and any other not at all. -/
theorem Catalog.block_of_search {rows : List Row} {c : Catalog} (hc : build rows = .ok c)
    {s : Scope} (hs : s ∈ scopesOf c.categories) {text : String} (htext : text ≠ "") :
    let needle := Text.lowercaseChars text.toList
    ∃ hits, c.search { text := text } = .ok hits ∧
      (needle <:+: Text.lowercaseChars s.subcategory.name.toList → s.hits needle <:+: hits) ∧
      (hits.filter fun x => (x.category, x.subcategory) = s.label)
        = if needle <:+: Text.lowercaseChars s.subcategory.name.toList then s.hits needle
          else [] := by
  intro needle
  let found := (scopesOf c.categories).filter (nameMatches needle ·.subcategory.name)
  let ranked := found.mergeSort fun a b =>
    relevance needle b.subcategory.name ≤ relevance needle a.subcategory.name
  have hranked : Ranked (fun s : Scope => relevance needle s.subcategory.name) found ranked :=
    ranked_mergeSort _ found
  have hlabels := nodup_labels_of_build hc
  have hnodup : (ranked.map (·.label)).Nodup :=
    (hranked.perm.map _).nodup_iff.mpr ((List.filter_sublist.map _).nodup hlabels)
  have hmem : s ∈ ranked ↔ needle <:+: Text.lowercaseChars s.subcategory.name.toList := by
    rw [hranked.perm.mem_iff, List.mem_filter, and_iff_right hs, nameMatches, occursIn_iff]
  have hsearch := (c.search_unfiltered htext 0).trans (congrArg _ (rank_flatMap_hits hranked))
  refine ⟨ranked.flatMap (·.hits needle), hsearch, ?_, ?_⟩
  · intro hpart
    exact (hits_isInfix_and_filter hnodup (hmem.mpr hpart)).1
  · split
    next hpart => exact (hits_isInfix_and_filter hnodup (hmem.mpr hpart)).2
    next hpart =>
      -- no other scope has the label, and this one is not found
      rw [filter_label_flatMap_hits, List.filter_eq_nil_iff.mpr, List.flatMap_nil]
      intro s' hs' hlabel
      have hs'' : s' ∈ scopesOf c.categories :=
        List.mem_of_mem_filter (hranked.perm.mem_iff.mp hs')
      obtain rfl := List.inj_on_of_nodup_map hlabels hs'' hs (beq_iff_eq.mp hlabel)
      exact hpart (hmem.mp hs')

/-! ### The result -/

/-- **A passage of a name finds the items under the name**, unless it cuts a word at a capital
sigma.

* All items under the name are found, together and in order, if the lowercase form of the passage
  stands anywhere in that of the name, and else none of them.
* It stands where the passage was taken from exactly if each capital sigma of the passage ends a
  word in the passage just as it does in the name.
* So it does for every passage without a capital sigma. -/
theorem passages_are_found {rows : List Row} {c : Catalog} (hc : Catalog.build rows = .ok c)
    {s : Scope} (hs : s ∈ scopesOf c.categories) {before passage after : List Char}
    (hname : s.subcategory.name.toList = before ++ passage ++ after) (hpassage : passage ≠ []) :
    let needle := Text.lowercaseChars passage
    let lowered := Text.lowercaseChars s.subcategory.name.toList
    let block : List Hit := s.subcategory.items.map fun item =>
      ⟨item, s.category, s.subcategory.name, relevance needle s.subcategory.name⟩
    let sigmasKeep : Prop := ∀ left right, passage = left ++ 'Σ' :: right →
      Text.lowerSigma (left.reverse ++ before.reverse) (right ++ after)
        = Text.lowerSigma left.reverse right
    ∃ hits, c.search { text := String.ofList passage } = .ok hits ∧
      (sigmasKeep → block <:+: hits) ∧
      ('Σ' ∉ passage → block <:+: hits) ∧
      (sigmasKeep ↔ Text.lowercaseWithin before.reverse after passage = needle) ∧
      (hits.filter fun x => (x.category, x.subcategory) = (s.category, s.subcategory.name))
        = if needle <:+: lowered then block else [] := by
  intro needle lowered block sigmasKeep
  have htext : String.ofList passage ≠ "" := by
    rw [Ne, ← String.toList_eq_nil_iff, String.toList_ofList]
    exact hpassage
  have hblock := Catalog.block_of_search hc hs htext
  rw [String.toList_ofList] at hblock
  obtain ⟨hits, hsearch, hfound, hfilter⟩ := hblock
  have hkeep : sigmasKeep → block <:+: hits := by
    intro hkeep
    have hpart := Text.lowercaseWithin_isInfix before passage after
    rw [Text.lowercaseWithin_eq_iff.mpr hkeep, ← hname] at hpart
    exact hfound hpart
  exact ⟨hits, hsearch, hkeep, fun hnot => hkeep (Text.sigmasKeep_of_not_mem hnot),
    Text.lowercaseWithin_eq_iff.symm, hfilter⟩

/-- A catalog with one name, in which a sigma stands inside a word. -/
def Catalog.sigmas : Catalog := ofCategories [.ofSubcategories "greek" [⟨"ΑΣΑ", ["x"]⟩]]

theorem passages_are_found_sigmas :
    Catalog.build [⟨"greek", ⟨"ΑΣΑ", ["x"]⟩⟩] = .ok Catalog.sigmas ∧
      "ΑΣΑ".toList = ['Α'] ++ ['Σ', 'Α'] ++ [] ∧
      ∃ hits, Catalog.sigmas.search { text := String.ofList ['Σ', 'Α'] } = .ok hits ∧
        [⟨"x", "greek", "ΑΣΑ", 74⟩] <:+: hits := by
  have hbuild : Catalog.build [⟨"greek", ⟨"ΑΣΑ", ["x"]⟩⟩] = .ok Catalog.sigmas := rfl
  have hscope : (⟨"greek", ⟨"ΑΣΑ", ["x"]⟩⟩ : Scope) ∈ scopesOf Catalog.sigmas.categories :=
    List.mem_singleton_self _
  have hname : "ΑΣΑ".toList = ['Α'] ++ ['Σ', 'Α'] ++ [] := rfl
  obtain ⟨hits, hsearch, hkeep, -, hiff, -⟩ :=
    passages_are_found hbuild hscope hname (List.cons_ne_nil _ _)
  have hscore : relevance (Text.lowercaseChars ['Σ', 'Α']) "ΑΣΑ" = 74 := by decide +kernel
  have hblock := hkeep (hiff.mpr (by decide +kernel))
  rw [List.map_singleton, hscore] at hblock
  exact ⟨hbuild, hname, hits, hsearch, hblock⟩

/-- **A word that is cut behind a sigma is missed**, though its first letter and the whole word are
found. -/
theorem cut_word_is_missed :
    Catalog.build [⟨"greek", ⟨"ΑΣΑ", ["x"]⟩⟩] = .ok Catalog.sigmas ∧
      "ΑΣΑ".toList = [] ++ "ΑΣ".toList ++ "Α".toList ∧
      Catalog.sigmas.search { text := "Α" } = .ok [⟨"x", "greek", "ΑΣΑ", 94⟩] ∧
      Catalog.sigmas.search { text := "ΑΣ" } = .ok [] ∧
      Catalog.sigmas.search { text := "ΑΣΑ" } = .ok [⟨"x", "greek", "ΑΣΑ", 114⟩] := by
  refine ⟨rfl, rfl, ?_, ?_, ?_⟩
  · rw [Catalog.sigmas.search_unfiltered (by decide)]
    exact congrArg Except.ok ((ranked_rank _).unique (by decide +kernel))
  · rw [Catalog.sigmas.search_unfiltered (by decide)]
    exact congrArg Except.ok ((ranked_rank _).unique (by decide +kernel))
  · rw [Catalog.sigmas.search_unfiltered (by decide)]
    exact congrArg Except.ok ((ranked_rank _).unique (by decide +kernel))

end EmojiCatalog
