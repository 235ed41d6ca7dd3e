import EmojiCatalog.Catalog.Basic
/-!
Building a catalog from rows.

A row adds one subcategory with its items to a category.  Rows of one category need not be
adjacent: they are gathered under the category's first appearance, in row order.  The only thing
that can go wrong is a subcategory named twice in one category.  Gathering comes first and the check
walks the gathered categories, so of several repeats the one in the earliest category is reported.
-/

namespace EmojiCatalog

/-- One subcategory to add, with the category that it belongs to. -/
structure Row where
  category : String
  subcategory : Subcategory
  deriving DecidableEq, Repr

/-- A category's name with the subcategories gathered under it so far. -/
abbrev Group := String × List Subcategory

/-- Adds a row to the group of its category, or starts that group. -/
def gather (groups : List Group) (row : Row) : List Group :=
  match groups with
  | [] => [(row.category, [row.subcategory])]
  | (name, subs) :: rest =>
    if name = row.category then (name, subs ++ [row.subcategory]) :: rest
    else (name, subs) :: gather rest row

/-- The rows gathered by category, in order of first appearance. -/
def groupRows (rows : List Row) : List Group :=
  rows.foldl gather []

/-- The first name that has occurred before, given the names already seen. -/
def firstRepeat? (seen : List String) : List String → Option String
  | [] => none
  | name :: rest => if name ∈ seen then some name else firstRepeat? (name :: seen) rest

/-- The category of a group, unless it names a subcategory twice. -/
def Category.ofGroup (g : Group) : Except Fault Category :=
  match firstRepeat? [] (g.2.map (·.name)) with
  | some repeated => .error (.invalidState (.duplicateSubcategory g.1 repeated))
  | none => .ok (.ofSubcategories g.1 g.2)

namespace Catalog

/-- The catalog of the rows, unless some category names a subcategory twice. -/
def build (rows : List Row) : Except Fault Catalog := do
  return ofCategories (← (groupRows rows).mapM Category.ofGroup)

/-- The rows that list a catalog: one for every subcategory, in order. -/
def rows (c : Catalog) : List Row :=
  c.categories.flatMap fun category => category.subcategories.map (⟨category.name, ·⟩)

end Catalog

end EmojiCatalog
