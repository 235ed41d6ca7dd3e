import EmojiCatalog.Catalog.Basic
import EmojiCatalog.Log
import EmojiCatalog.Text.Lowercase
/-!
Relevance-ranked search over the names of subcategories.

A query is compared with names, never with items, and both are lowercased first.  Every item of a
subcategory whose name contains the query is a hit.  The relevance of a hit depends on its
subcategory alone: 100 points when the query is the whole name, 80 when it begins the name, 60 when
it stands further inside, and a bonus for names shorter than twenty bytes.  The bonus is taken from
the name as written, not from its lowercase form.

Hits are ranked by descending relevance and otherwise stay in traversal order.  Filters restrict
which subcategories are compared; only they can fail, and they do so before the query is looked at.
-/

namespace EmojiCatalog

/-- What to search for. -/
structure Query where
  text : String
  /-- Restricts the search to one category. -/
  category : Option String := none
  /-- Restricts the search to subcategories of one name. -/
  subcategory : Option String := none
  /-- The greatest number of hits; zero means all. -/
  limit : Nat := 0
  deriving DecidableEq, Repr, Inhabited

/-- An item found, with where it stands and how well its subcategory matches.  A search scores with
whole numbers. -/
structure Hit (Score : Type := Nat) where
  item : String
  category : String
  subcategory : String
  relevance : Score
  deriving DecidableEq, Repr

/-- A subcategory to be compared with a query, and the category that it belongs to. -/
structure Scope where
  category : String
  subcategory : Subcategory
  deriving DecidableEq, Repr

/-! ### Matching and scoring -/

/-- Whether `needle` stands somewhere in the text. -/
def occursIn (needle : List Char) : List Char → Bool
  | [] => needle.isEmpty
  | c :: rest => needle.isPrefixOf (c :: rest) || occursIn needle rest

/-- Points for the way in which a lowercased query matches a lowercased name. -/
def basePoints (query name : List Char) : Nat :=
  if query = name then 100
  else if query.isPrefixOf name then 80
  else if occursIn query name then 60
  else 0

/-- Points for a short name: one for every byte that it is shorter than twenty. -/
def lengthBonus (name : String) : Nat := 20 - name.utf8ByteSize

/-- The relevance of a name for a lowercased query. -/
def relevance (query : List Char) (name : String) : Nat :=
  basePoints query (Text.lowercaseChars name.toList) + lengthBonus name

/-- Whether a name contains a lowercased query. -/
def nameMatches (query : List Char) (name : String) : Bool :=
  occursIn query (Text.lowercaseChars name.toList)

namespace Scope

/-- The hits that the items of a subcategory become under a lowercased query. -/
def hits (query : List Char) (s : Scope) : List Hit :=
  let score := relevance query s.subcategory.name
  s.subcategory.items.map (⟨·, s.category, s.subcategory.name, score⟩)

end Scope

/-! ### Filters -/

/-- The scopes of all subcategories of some categories. -/
def scopesOf (categories : List Category) : List Scope :=
  categories.flatMap fun c => c.subcategories.map (⟨c.name, ·⟩)

/-- The scopes of the subcategories of one name in some categories. -/
def scopesNamed (name : String) (categories : List Category) : List Scope :=
  categories.filterMap fun c => (c.subcategory? name).map (⟨c.name, ·⟩)

namespace Catalog

/-- The categories that a category filter leaves. -/
def selectCategories (c : Catalog) : Option String → Except Fault (List Category)
  | some name => do return [← c.category name]
  | none => .ok c.categories

/-- The scopes that both filters leave. -/
def selectScopes (c : Catalog) (q : Query) : Except Fault (List Scope) := do
  let categories ← c.selectCategories q.category
  match q.subcategory with
  | none => return scopesOf categories
  | some name =>
    match scopesNamed name categories with
    | [] => .error (.notFound .subcategory name)
    | scopes => return scopes

end Catalog

/-! ### Ranking -/

/-- Hits by descending relevance; hits of equal relevance keep their order. -/
def rank (hits : List Hit) : List Hit :=
  hits.mergeSort fun a b => b.relevance ≤ a.relevance

/-- At most `limit` hits, or all when the limit is zero. -/
def cut {α : Type} (limit : Nat) (hits : List α) : List α :=
  if limit = 0 then hits else hits.take limit

namespace Catalog

/-- The ranked hits of a query. -/
def search (c : Catalog) (q : Query) : Except Fault (List Hit) := do
  let scopes ← c.selectScopes q
  if q.text.isEmpty then return []
  let needle := Text.lowercaseChars q.text.toList
  let found := scopes.filter (nameMatches needle ·.subcategory.name)
  return cut q.limit (rank (found.flatMap (·.hits needle)))

end Catalog

/-! ### Log events -/

namespace Query

/-- The event at the end of a search; a search that fails causes none. -/
def searchEvents (q : Query) : Except Fault (List Hit) → List Log.Event
  | .error _ => []
  | .ok hits =>
    if q.text.isEmpty then
      [⟨.debug, "Empty query, no candidates", [("category", .text (optionText q.category))]⟩]
    else
      [⟨.debug, "Search complete", [("query", .text q.text), ("results", .nat hits.length)]⟩]
where
  /-- A filter's name, or nothing. -/
  optionText (name : Option String) : String := name.getD ""

end Query

end EmojiCatalog
