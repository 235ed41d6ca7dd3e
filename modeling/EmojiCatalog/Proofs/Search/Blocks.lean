import EmojiCatalog.Proofs.Catalog.Lookup
import EmojiCatalog.Proofs.Search.Ranking
import Mathlib.Data.List.Infix
/-!
What a search without filters finds.

Every item under a matching name is a hit, and the hits of one subcategory have one relevance.  The
hits in traversal order are therefore an expansion of the matching scopes (`flatMap_hits`), and
ranking them comes to ranking the scopes and expanding these (`search_lists_ranked_blocks`).  The
result is a list of blocks, one for each matching subcategory, whole and in the order of its items.

In a catalog that was built no two scopes have the same label, so the block of a scope can be told
from all others by the label of its hits.
-/

namespace EmojiCatalog

/-! ### Matching -/

/-- The search for a query in a text finds it wherever it stands. -/
theorem occursIn_iff (needle text : List Char) :
    occursIn needle text = true ↔ needle <:+: text := by
  induction text with
  | nil => simp [occursIn]
  | cons c text ih => simp [occursIn, ih, List.infix_cons_iff]

theorem nameMatches_eq (needle : List Char) (name : String) :
    nameMatches needle name = decide (needle <:+: Text.lowercaseChars name.toList) := by
  rw [Bool.eq_iff_iff, nameMatches, occursIn_iff, decide_eq_true_eq]

/-! ### Hits in traversal order -/

/-- The hit that an entry becomes. -/
def Entry.hit (needle : List Char) (e : Entry) : Hit :=
  ⟨e.item, e.category, e.subcategory, relevance needle e.subcategory⟩

theorem Scope.map_hit_entries (needle : List Char) (s : Scope) :
    (s.subcategory.entries s.category).map (·.hit needle) = s.hits needle := by
  rw [Subcategory.entries, List.map_map, hits]
  nth_rewrite 2 [← List.zipIdx_map_fst 0 s.subcategory.items]
  rw [List.map_map]
  rfl

theorem Catalog.entries_eq_flatMap_scopes (c : Catalog) :
    c.entries = (scopesOf c.categories).flatMap fun s => s.subcategory.entries s.category := by
  rw [entries, scopesOf, List.flatMap_assoc]
  simp only [List.flatMap_map, Category.entries]

/-- The hits of the matching scopes are the entries under matching names, in traversal order. -/
theorem flatMap_hits (c : Catalog) (needle : List Char) (p : String → Bool) :
    ((scopesOf c.categories).filter (p ·.subcategory.name)).flatMap (·.hits needle)
      = (c.entries.filter (p ·.subcategory)).map (·.hit needle) := by
  -- the entries of one scope match all or not at all
  have hname : ∀ s : Scope, ∀ e ∈ s.subcategory.entries s.category,
      p e.subcategory = p s.subcategory.name := by
    intro s e he
    obtain ⟨x, -, rfl⟩ := List.mem_map.mp he
    rfl
  rw [c.entries_eq_flatMap_scopes, filter_flatMap_eq hname, List.map_flatMap]
  simp only [Scope.map_hit_entries]

/-! ### Searching -/

theorem Scope.relevance_of_mem_hits {needle : List Char} {s : Scope} {hit : Hit}
    (h : hit ∈ s.hits needle) : hit.relevance = relevance needle s.subcategory.name := by
  obtain ⟨item, -, rfl⟩ := List.mem_map.mp h
  rfl

/-- Ranking the hits of some scopes comes to ranking the scopes. -/
theorem rank_flatMap_hits {needle : List Char} {found ranked : List Scope}
    (h : Ranked (fun s => relevance needle s.subcategory.name) found ranked) :
    rank (found.flatMap (·.hits needle)) = ranked.flatMap (·.hits needle) :=
  (ranked_rank _).unique (h.flatMap fun _ _ => Scope.relevance_of_mem_hits)

theorem Catalog.search_unfiltered (c : Catalog) {text : String} (htext : text ≠ "") (limit : Nat) :
    let needle := Text.lowercaseChars text.toList
    c.search { text := text, limit := limit } = .ok (cut limit (rank
      (((scopesOf c.categories).filter (nameMatches needle ·.subcategory.name)).flatMap
        (·.hits needle)))) := by
  have hempty : text.isEmpty = false := by simpa using htext
  simp only [search, selectScopes, selectCategories, bind, Except.bind, pure, Except.pure, hempty,
    Bool.false_eq_true, if_false]

/-- Only a filter can make a search fail. -/
theorem Catalog.exists_search_unfiltered (c : Catalog) (text : String) (limit : Nat) :
    ∃ hits, c.search { text := text, limit := limit } = .ok hits := by
  by_cases htext : text = ""
  · rw [htext]
    exact ⟨[], rfl⟩
  · exact ⟨_, c.search_unfiltered htext limit⟩

/-- What a search finds are the ranked hits of some matching scopes, up to the limit. -/
theorem Catalog.exists_scopes_of_search {c : Catalog} {q : Query} {hits : List Hit}
    (h : c.search q = .ok hits) :
    let needle := Text.lowercaseChars q.text.toList
    hits = [] ∨ q.text ≠ "" ∧ ∃ scopes : List Scope,
      (∀ s ∈ scopes, needle <:+: Text.lowercaseChars s.subcategory.name.toList) ∧
        hits = cut q.limit (rank (scopes.flatMap (·.hits needle))) := by
  intro needle
  unfold search at h
  cases hscopes : c.selectScopes q with
  | error f =>
    rw [hscopes] at h
    cases h
  | ok scopes =>
    rw [hscopes] at h
    by_cases htext : q.text = ""
    · rw [htext] at h
      cases h
      exact .inl rfl
    · have hempty : q.text.isEmpty = false := by simpa using htext
      simp only [bind, Except.bind, pure, Except.pure, hempty, Bool.false_eq_true, if_false] at h
      refine .inr ⟨htext, _, fun s hs => ?_, (Except.ok.inj h).symm⟩
      rw [← occursIn_iff]
      exact (List.mem_filter.mp hs).2

/-! ### Labels -/

/-- Where the items of a scope stand, which is written on its hits. -/
def Scope.label (s : Scope) : String × String := (s.category, s.subcategory.name)

/-- In a catalog that was built the scopes differ in their labels. -/
theorem Catalog.nodup_labels_of_build {rows : List Row} {c : Catalog} (h : build rows = .ok c) :
    ((scopesOf c.categories).map (·.label)).Nodup := by
  have hlabels : (scopesOf c.categories).map (·.label)
      = c.categories.flatMap fun x => (x.subcategories.map (·.name)).map (x.name, ·) := by
    simp only [scopesOf, List.map_flatMap, List.map_map]
    rfl
  rw [hlabels, List.nodup_flatMap]
  constructor
  · intro category hmem
    exact (nodup_subcategories_of_build h hmem).map fun _ _ heq => (Prod.mk.inj heq).2
  · refine (List.pairwise_map.mp (nodup_names_of_build h)).imp ?_
    intro x y hne label hx hy
    obtain ⟨_, -, rfl⟩ := List.mem_map.mp hx
    obtain ⟨_, -, heq⟩ := List.mem_map.mp hy
    exact hne (Prod.mk.inj heq).1.symm

/-- The hits under a label are those of the scopes with this label. -/
theorem filter_label_flatMap_hits (needle : List Char) (scopes : List Scope)
    (label : String × String) :
    ((scopes.flatMap (·.hits needle)).filter fun h => (h.category, h.subcategory) = label)
      = (scopes.filter (·.label == label)).flatMap (·.hits needle) := by
  refine filter_flatMap_eq (fun s h hh => ?_) scopes
  obtain ⟨item, -, rfl⟩ := List.mem_map.mp hh
  exact (beq_eq_decide s.label label).symm

/-- The hits of one of several scopes with different labels stand together, and no others have its
label. -/
theorem hits_isInfix_and_filter {needle : List Char} {scopes : List Scope} {s : Scope}
    (hnodup : (scopes.map (·.label)).Nodup) (hs : s ∈ scopes) :
    s.hits needle <:+: scopes.flatMap (·.hits needle) ∧
      ((scopes.flatMap (·.hits needle)).filter fun h => (h.category, h.subcategory) = s.label)
        = s.hits needle := by
  constructor
  · obtain ⟨before, after, rfl⟩ := List.append_of_mem hs
    rw [List.flatMap_append, List.flatMap_cons, ← List.append_assoc]
    exact List.infix_append _ _ _
  · rw [filter_label_flatMap_hits, filter_key_eq_singleton hnodup hs, List.flatMap_singleton]

/-! ### The result -/

/-- **A search lists the items under matching names in blocks**, one for each subcategory.

* The matching subcategories are ranked by relevance, ties in traversal order, and each is expanded
  into all its items in order, every item with its category, subcategory and relevance.
* The same list comes of ranking the items one by one, so it has all of them and no others, and the
  relevance never increases along it.
* The hits under one label stand together.
* A limit cuts the list off behind as many hits, and changes nothing else. -/
theorem search_lists_ranked_blocks {rows : List Row} {c : Catalog}
    (hc : Catalog.build rows = .ok c) {text : String} (htext : text ≠ "") :
    let needle := Text.lowercaseChars text.toList
    let isMatch (name : String) : Bool := needle <:+: Text.lowercaseChars name.toList
    let found := (scopesOf c.categories).filter (isMatch ·.subcategory.name)
    let block (s : Scope) : List Hit := s.subcategory.items.map fun item =>
      ⟨item, s.category, s.subcategory.name, relevance needle s.subcategory.name⟩
    ∃ ranked hits,
      Ranked (fun s => relevance needle s.subcategory.name) found ranked ∧
      hits = ranked.flatMap block ∧
      c.search { text := text } = .ok hits ∧
      Ranked (·.relevance) ((c.entries.filter (isMatch ·.subcategory)).map fun e =>
        ⟨e.item, e.category, e.subcategory, relevance needle e.subcategory⟩) hits ∧
      (∀ s ∈ found, block s <:+: hits ∧
        (hits.filter fun h => (h.category, h.subcategory) = (s.category, s.subcategory.name))
          = block s) ∧
      ∀ limit, 0 < limit → c.search { text := text, limit := limit }
        = .ok (hits.take (min limit hits.length)) := by
  intro needle isMatch found block
  have hfound : (scopesOf c.categories).filter (nameMatches needle ·.subcategory.name) = found := by
    simp only [nameMatches_eq]
    rfl
  have hranked := ranked_mergeSort (fun s : Scope => relevance needle s.subcategory.name) found
  refine ⟨_, _, hranked, rfl, ?_, ?_, ?_, ?_⟩
  · rw [c.search_unfiltered htext, hfound, rank_flatMap_hits hranked]
    rfl
  · show Ranked _ ((c.entries.filter (isMatch ·.subcategory)).map (·.hit needle)) _
    rw [← flatMap_hits c needle isMatch]
    exact hranked.flatMap fun _ _ => Scope.relevance_of_mem_hits
  · intro s hs
    refine hits_isInfix_and_filter ?_ (hranked.perm.mem_iff.mpr hs)
    have hnodup : (found.map (·.label)).Nodup :=
      (List.filter_sublist.map _).nodup (Catalog.nodup_labels_of_build hc)
    exact (hranked.perm.map _).nodup_iff.mpr hnodup
  · intro limit hlimit
    rw [c.search_unfiltered htext, hfound, rank_flatMap_hits hranked, cut,
      if_neg (Nat.ne_of_gt hlimit), List.take_eq_take_min]
    rfl

/-- Rows with one name in two categories, and a better match behind them. -/
def Catalog.toolRows : List Row :=
  [⟨"a", ⟨"tools", ["t1", "t2"]⟩⟩, ⟨"a", ⟨"toys", ["y1"]⟩⟩, ⟨"b", ⟨"tools", ["u1"]⟩⟩,
    ⟨"b", ⟨"tool", ["e1", "e2"]⟩⟩]

/-- Their catalog. -/
def Catalog.tools : Catalog :=
  ofCategories [.ofSubcategories "a" [⟨"tools", ["t1", "t2"]⟩, ⟨"toys", ["y1"]⟩],
    .ofSubcategories "b" [⟨"tools", ["u1"]⟩, ⟨"tool", ["e1", "e2"]⟩]]

theorem search_lists_ranked_blocks_tools :
    Catalog.build Catalog.toolRows = .ok Catalog.tools ∧ "TOOL" ≠ "" ∧
      Catalog.tools.search { text := "TOOL", limit := 4 }
        = .ok [⟨"e1", "b", "tool", 116⟩, ⟨"e2", "b", "tool", 116⟩, ⟨"t1", "a", "tools", 95⟩,
          ⟨"t2", "a", "tools", 95⟩] := by
  have hbuild : Catalog.build Catalog.toolRows = .ok Catalog.tools := rfl
  have htext : "TOOL" ≠ "" := by decide
  refine ⟨hbuild, htext, ?_⟩
  obtain ⟨ranked, hits, hranked, rfl, -, -, -, hlimit⟩ := search_lists_ranked_blocks hbuild htext
  have hranking : ranked = [⟨"b", ⟨"tool", ["e1", "e2"]⟩⟩, ⟨"a", ⟨"tools", ["t1", "t2"]⟩⟩,
      ⟨"b", ⟨"tools", ["u1"]⟩⟩] := hranked.unique (by decide)
  rw [hlimit 4 (by decide), hranking]
  decide

end EmojiCatalog
