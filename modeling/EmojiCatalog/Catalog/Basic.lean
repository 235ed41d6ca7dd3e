import Std.Data.HashMap
import EmojiCatalog.Fault
import EmojiCatalog.SumOf
/-!
The catalog: categories of subcategories of items, in the order in which they were put together.

Names are looked up through an index from names to places, built once beside the list that it
indexes.  An entry is an item together with where it stands; `Catalog.entries` lists all of them in
traversal order, which is the nested order of the lists.
-/

namespace EmojiCatalog

/-! ### Indices of names -/

/-- Where each name stands in a list of names. -/
abbrev NameIndex := Std.HashMap String Nat

/-- The index of a list of names; of a repeated name it gives the last place. -/
def NameIndex.ofNames (names : List String) : NameIndex :=
  names.zipIdx.foldl (fun index p => index.insert p.1 p.2) ∅

/-! ### The two levels -/

/-- A named, ordered group of items. -/
structure Subcategory where
  name : String
  items : List String
  deriving DecidableEq, Repr

/-- A named, ordered group of subcategories. -/
structure Category where
  name : String
  subcategories : List Subcategory
  index : NameIndex

namespace Category

/-- The category with the given subcategories. -/
def ofSubcategories (name : String) (subcategories : List Subcategory) : Category :=
  ⟨name, subcategories, NameIndex.ofNames (subcategories.map (·.name))⟩

/-- The subcategory of a name. -/
def subcategory? (c : Category) (name : String) : Option Subcategory :=
  (c.index[name]?).bind (c.subcategories[·]?)

/-- The number of items in all subcategories. -/
def itemCount (c : Category) : Nat :=
  sumOf (·.items.length) c.subcategories

end Category

/-- Categories with an index of their names and their number of items. -/
structure Catalog where
  categories : List Category
  index : NameIndex
  size : Nat

/-- An item together with where it stands in the catalog. -/
structure Entry where
  category : String
  subcategory : String
  item : String
  /-- The place of the item within its subcategory. -/
  position : Nat
  deriving DecidableEq, Repr

namespace Catalog

/-- The catalog with the given categories. -/
def ofCategories (categories : List Category) : Catalog :=
  ⟨categories, NameIndex.ofNames (categories.map (·.name)),
    sumOf (·.itemCount) categories⟩

/-- The catalog without categories. -/
def empty : Catalog := ofCategories []

instance : Inhabited Catalog := ⟨empty⟩

/-! ### Lookups -/

/-- The category of a name. -/
def category? (c : Catalog) (name : String) : Option Category :=
  (c.index[name]?).bind (c.categories[·]?)

/-- The category of a name, or the fault that it is unknown. -/
def category (c : Catalog) (name : String) : Except Fault Category :=
  match c.category? name with
  | some found => .ok found
  | none => .error (.notFound .category name)

/-- The items of a subcategory, or the fault that one of the two names is unknown. -/
def items (c : Catalog) (category subcategory : String) : Except Fault (List String) := do
  let found ← c.category category
  match found.subcategory? subcategory with
  | some sub => .ok sub.items
  | none => .error (.notFound .subcategory subcategory)

/-- Whether the catalog holds no items. -/
def isEmpty (c : Catalog) : Bool := c.size == 0

end Catalog

/-! ### Traversal -/

/-- The entries of one subcategory. -/
def Subcategory.entries (category : String) (s : Subcategory) : List Entry :=
  s.items.zipIdx.map fun p => ⟨category, s.name, p.1, p.2⟩

/-- The entries of one category. -/
def Category.entries (c : Category) : List Entry :=
  c.subcategories.flatMap (·.entries c.name)

/-- Every entry of the catalog, in traversal order. -/
def Catalog.entries (c : Catalog) : List Entry :=
  c.categories.flatMap (·.entries)

end EmojiCatalog
