/-!
Cancellation tokens.

Tokens form a tree below one root.  A token is known by its number, and its node keeps the numbers
of the token itself and of all its ancestors.  Cancelling a token marks it and all its descendants;
a token made below a cancelled one is cancelled from the start.  Nothing is ever unmarked.
-/

namespace EmojiCatalog

/-- A token, known by its number. -/
abbrev Token := Nat

/-- A node of the token tree: the token with all its ancestors, nearest first, and its mark. -/
structure Tokens.Node where
  lineage : List Token
  cancelled : Bool
  deriving DecidableEq, Repr

/-- A tree of tokens. -/
structure Tokens where
  nodes : List Tokens.Node
  deriving DecidableEq, Repr

namespace Tokens

/-- The token above all others. -/
def root : Token := 0

/-- The tree of the root token alone. -/
def start (cancelled : Bool) : Tokens := ⟨[⟨[root], cancelled⟩]⟩

instance : Inhabited Tokens := ⟨start false⟩

/-- Whether a token is cancelled. -/
def isCancelled (ts : Tokens) (t : Token) : Bool :=
  match ts.nodes[t]? with
  | some node => node.cancelled
  | none => false

/-- The token that the next call of `child` makes. -/
def fresh (ts : Tokens) : Token := ts.nodes.length

/-- Makes a token below another, cancelled exactly if that one is. -/
def child (ts : Tokens) (parent : Token) : Tokens :=
  let lineage := match ts.nodes[parent]? with
    | some node => node.lineage
    | none => []
  ⟨ts.nodes ++ [⟨ts.fresh :: lineage, ts.isCancelled parent⟩]⟩

/-- Cancels a token with all its descendants. -/
def cancel (ts : Tokens) (t : Token) : Tokens :=
  ⟨ts.nodes.map fun node =>
    if t ∈ node.lineage then { node with cancelled := true } else node⟩

end Tokens

end EmojiCatalog
