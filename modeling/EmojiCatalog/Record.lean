import EmojiCatalog.Catalog.Basic
import EmojiCatalog.Digest
import EmojiCatalog.Instant
/-!
Records: what a stream run emits, one for every entry of the catalog.

All of a record but its payload and its stamp is a function of the entry and of the producer's name.
The stamp, the time of making and an identifier, comes from outside and is carried along.
-/

namespace EmojiCatalog

/-- When a record was made, and its identifier. -/
structure Stamp where
  createdAt : Instant
  correlationId : String
  deriving DecidableEq, Repr, Inhabited

/-- What is known about a record's item. -/
structure Metadata where
  /-- The number of characters. -/
  length : Nat
  /-- The number of bytes in UTF-8. -/
  byteSize : Nat
  /-- The SHA-256 digest of the bytes in lowercase hexadecimal. -/
  contentHash : String
  stamp : Stamp
  producedBy : String
  deriving DecidableEq, Repr

/-- An item of the catalog with a payload of the caller's choice. -/
structure Record (α : Type) where
  item : String
  category : String
  payload : α
  metadata : Metadata
  deriving DecidableEq, Repr

namespace Metadata

/-- The metadata of an item. -/
def ofItem (item producedBy : String) (stamp : Stamp) : Metadata where
  length := item.length
  byteSize := item.utf8ByteSize
  contentHash := Digest.ofText item
  stamp := stamp
  producedBy := producedBy

end Metadata

namespace Record

/-- The record of an entry. -/
def ofEntry {α : Type} (e : Entry) (payload : α) (producedBy : String) (stamp : Stamp) :
    Record α where
  item := e.item
  category := e.category
  payload := payload
  metadata := .ofItem e.item producedBy stamp

end Record

end EmojiCatalog
