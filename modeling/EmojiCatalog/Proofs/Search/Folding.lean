import EmojiCatalog.Proofs.Search.Blocks
import EmojiCatalog.Proofs.Text.Folding
/-!
Searching for a lowercased text.

A search looks at its text in two places: whether it is empty, and what its lowercase form is.  Only
the empty text has an empty lowercase form, so the second place decides the first, and texts with
one lowercase form are interchangeable (`Catalog.search_congr`).  A text and its lowercase form are
such texts, because lowercasing twice changes nothing (`Text.lowercase_lowercase`).
-/

namespace EmojiCatalog

/-- The text of a query is looked at through its lowercase form only. -/
theorem Catalog.search_congr (c : Catalog) {q q' : Query} (hcategory : q'.category = q.category)
    (hsubcategory : q'.subcategory = q.subcategory) (hlimit : q'.limit = q.limit)
    (htext : Text.lowercase q'.text = Text.lowercase q.text) : c.search q' = c.search q := by
  have hscopes : c.selectScopes q' = c.selectScopes q := by
    simp only [selectScopes, hcategory, hsubcategory]
  have hempty : q'.text.isEmpty = q.text.isEmpty := by
    rw [Bool.eq_iff_iff, String.isEmpty_iff, String.isEmpty_iff]
    exact Text.lowercase_eq_empty_iff.symm.trans (htext ▸ Text.lowercase_eq_empty_iff)
  have hneedle : Text.lowercaseChars q'.text.toList = Text.lowercaseChars q.text.toList := by
    rw [← Text.toList_lowercase, ← Text.toList_lowercase, htext]
  simp only [search, hscopes, hempty, hneedle, hlimit]

/-- **A search does not tell a text from its lowercase form.**  Whatever the filters and the limit,
both fail alike or find the same items in the same order and with the same relevance; and so do any
two texts with one lowercase form. -/
theorem search_ignores_case (c : Catalog) (q : Query) :
    c.search { q with text := Text.lowercase q.text } = c.search q ∧
    ∀ text, Text.lowercase text = Text.lowercase q.text →
      c.search { q with text := text } = c.search q := by
  refine ⟨?_, fun text htext => ?_⟩
  · exact c.search_congr rfl rfl rfl (Text.lowercase_lowercase q.text)
  · exact c.search_congr rfl rfl rfl htext

/-- A catalog with one name, whose lowercase form has a character more than the name. -/
def Catalog.dotted : Catalog := ofCategories [.ofSubcategories "letters" [⟨"aİΣ", ["x"]⟩]]

/-- A dot of its own or on the letter, a sigma in either case: the lowercase form is one. -/
theorem search_ignores_case_dotted :
    Text.lowercase "I\u0307Σ" = Text.lowercase "İς" ∧
      Catalog.dotted.search { text := "I\u0307Σ" } = Catalog.dotted.search { text := "İς" } ∧
      Catalog.dotted.search { text := Text.lowercase "İς" }
        = .ok [⟨"x", "letters", "aİΣ", 75⟩] := by
  have hlowered : Text.lowercase "I\u0307Σ" = Text.lowercase "İς" := by decide +kernel
  obtain ⟨hsame, hany⟩ := search_ignores_case Catalog.dotted { text := "İς" }
  refine ⟨hlowered, hany _ hlowered, hsame.trans ?_⟩
  rw [Catalog.dotted.search_unfiltered (by decide)]
  exact congrArg Except.ok ((ranked_rank _).unique (by decide +kernel))

end EmojiCatalog
