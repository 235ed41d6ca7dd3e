import EmojiCatalog.Tokens
/-!
The tree of tokens and its marks.

A token that is cancelled stays so, whatever is cancelled or made afterwards; and making a token
leaves the marks and lineages of all tokens known before as they are.

Two things happen to a tree: a token is made below another, or a token is cancelled.  A history of
these is an arbitrary tree with its cancellations, as long as it names only tokens that were made
before (`Knows`).  After every such history the lineage of a token consists of the token and its
ancestors, and the token is cancelled exactly if one of these was, before or after the token was
made (`Grown`).

Whoever makes tokens of their own and cancels only these and the root `Spares` the tokens that were
there before: nothing changes about them, unless the root is cancelled and they all with it.
-/

namespace EmojiCatalog.Tokens

variable {ts : Tokens} {t u : Token}

/-! ### Marks are never taken back -/

/-- A cancelled token is one of the tree. -/
theorem lt_length_of_isCancelled (h : ts.isCancelled u = true) : u < ts.nodes.length := by
  unfold isCancelled at h
  split at h
  next hnode => exact (List.getElem?_eq_some_iff.mp hnode).1
  next => cases h

theorem isCancelled_child_of_lt (h : u < ts.nodes.length) :
    (ts.child t).isCancelled u = ts.isCancelled u := by
  unfold isCancelled child
  rw [List.getElem?_append_left h]

theorem isCancelled_child (h : ts.isCancelled u = true) : (ts.child t).isCancelled u = true :=
  (isCancelled_child_of_lt (lt_length_of_isCancelled h)).trans h

theorem isCancelled_cancel (h : ts.isCancelled u = true) : (ts.cancel t).isCancelled u = true := by
  unfold isCancelled at h
  split at h
  next node hnode =>
    unfold isCancelled cancel
    rw [List.getElem?_map, hnode]
    show (if t ∈ node.lineage then { node with cancelled := true } else node).cancelled = true
    split
    · rfl
    · exact h
  next => cases h

/-! ### Lineages -/

/-- A token with all its ancestors, nearest first. -/
def lineage (ts : Tokens) (t : Token) : List Token :=
  match ts.nodes[t]? with
  | some node => node.lineage
  | none => []

@[simp] theorem length_child (ts : Tokens) (t : Token) :
    (ts.child t).nodes.length = ts.nodes.length + 1 :=
  List.length_append

@[simp] theorem length_cancel (ts : Tokens) (t : Token) :
    (ts.cancel t).nodes.length = ts.nodes.length :=
  List.length_map _

theorem lineage_child_of_lt (h : u < ts.nodes.length) :
    (ts.child t).lineage u = ts.lineage u := by
  unfold lineage child
  rw [List.getElem?_append_left h]

/-- The node of a new token. -/
theorem getElem?_child_fresh (ts : Tokens) (t : Token) :
    (ts.child t).nodes[ts.fresh]? = some ⟨ts.fresh :: ts.lineage t, ts.isCancelled t⟩ :=
  List.getElem?_concat_length

@[simp] theorem lineage_child_fresh (ts : Tokens) (t : Token) :
    (ts.child t).lineage ts.fresh = ts.fresh :: ts.lineage t := by
  simp only [lineage, getElem?_child_fresh]

@[simp] theorem isCancelled_child_fresh (ts : Tokens) (t : Token) :
    (ts.child t).isCancelled ts.fresh = ts.isCancelled t := by
  rw [isCancelled, getElem?_child_fresh]

@[simp] theorem lineage_cancel (ts : Tokens) (t u : Token) :
    (ts.cancel t).lineage u = ts.lineage u := by
  unfold lineage cancel
  rw [List.getElem?_map]
  cases ts.nodes[u]? with
  | none => rfl
  | some node =>
    show (if t ∈ node.lineage then { node with cancelled := true } else node).lineage = node.lineage
    split <;> rfl

/-- A cancellation marks the tokens in whose lineage it is, and no others. -/
theorem isCancelled_cancel_eq (ts : Tokens) (t u : Token) :
    (ts.cancel t).isCancelled u = (ts.isCancelled u || decide (t ∈ ts.lineage u)) := by
  unfold isCancelled lineage cancel
  rw [List.getElem?_map]
  cases ts.nodes[u]? with
  | none => rfl
  | some node =>
    show (if t ∈ node.lineage then { node with cancelled := true } else node).cancelled
      = (node.cancelled || decide (t ∈ node.lineage))
    split
    next h => simp only [h, decide_true, Bool.or_true]
    next h => simp only [h, decide_false, Bool.or_false]

/-! ### Histories -/

/-- What can happen to a tree of tokens. -/
inductive Act where
  /-- A token is made below the given one. -/
  | child (parent : Token)
  | cancel (t : Token)
  deriving DecidableEq, Repr

/-- The token that an act is about. -/
def Act.named : Act → Token
  | .child parent => parent
  | .cancel t => t

/-- The token below which an act makes one, if it does. -/
def Act.parent? : Act → Option Token
  | .child parent => some parent
  | .cancel _ => none

/-- The token that an act cancels, if it does. -/
def Act.cancelled? : Act → Option Token
  | .child _ => none
  | .cancel t => some t

/-- The tree after an act. -/
def act (ts : Tokens) : Act → Tokens
  | .child parent => ts.child parent
  | .cancel t => ts.cancel t

/-- The tree after some acts. -/
def after (ts : Tokens) (acts : List Act) : Tokens := acts.foldl act ts

/-- Every act is about a token that is in the tree by then. -/
def Knows (ts : Tokens) : List Act → Prop
  | [] => True
  | a :: acts => a.named < ts.nodes.length ∧ Knows (ts.act a) acts

instance decidableKnows (ts : Tokens) : (acts : List Act) → Decidable (ts.Knows acts)
  | [] => inferInstanceAs (Decidable True)
  | a :: acts =>
    have := decidableKnows (ts.act a) acts
    inferInstanceAs (Decidable (a.named < ts.nodes.length ∧ Knows (ts.act a) acts))

theorem knows_append {acts later : List Act} :
    ts.Knows (acts ++ later) ↔ ts.Knows acts ∧ (ts.after acts).Knows later := by
  induction acts generalizing ts with
  | nil => exact (iff_of_eq (true_and _)).symm
  | cons a acts ih =>
    rw [List.cons_append, Knows, Knows, ih, and_assoc]
    rfl

/-! ### Ancestors -/

/-- `Under parents t u`: the token `t` is `u` or below it, when the tokens after the root were made
below these parents, one after the other. -/
inductive Under (parents : List Token) : Token → Token → Prop
  | self (t : Token) : Under parents t t
  | above {t s u : Token} (hs : parents[t]? = some s) (h : Under parents s u) :
      Under parents (t + 1) u

variable {parents cancels : List Token} {parent : Token}

/-- Above a token are the tokens above the one that it was made below. -/
theorem under_succ_iff {s : Token} (hs : parents[t]? = some s) :
    Under parents (t + 1) u ↔ u = t + 1 ∨ Under parents s u := by
  constructor
  · intro hu
    cases hu with
    | self => exact .inl rfl
    | above hs' hu =>
      obtain rfl := Option.some.inj (hs.symm.trans hs')
      exact .inr hu
  · rintro (rfl | hu)
    · exact .self _
    · exact .above hs hu

theorem Under.append (h : Under parents t u) (more : List Token) : Under (parents ++ more) t u := by
  induction h with
  | self t => exact .self t
  | above hs _ ih =>
    refine .above ?_ ih
    rw [List.getElem?_append_left (List.getElem?_eq_some_iff.mp hs).1, hs]

/-- The tree with its marks is that of tokens made below `parents`, of which `cancels` have been
cancelled. -/
structure Grown (parents cancels : List Token) (ts : Tokens) : Prop where
  length_eq : ts.nodes.length = parents.length + 1
  parent_le : ∀ (k s : Token), parents[k]? = some s → s ≤ k
  cancels_lt : ∀ u ∈ cancels, u < ts.nodes.length
  mem_lineage_iff : ∀ t < ts.nodes.length, ∀ u, u ∈ ts.lineage t ↔ Under parents t u
  isCancelled_iff : ∀ t < ts.nodes.length,
    (ts.isCancelled t = true ↔ ∃ u ∈ cancels, Under parents t u)

/-- A new token changes nothing about the ancestors of the others. -/
theorem Grown.under_append_iff (h : Grown parents cancels ts) (ht : t < ts.nodes.length) :
    Under (parents ++ [parent]) t u ↔ Under parents t u := by
  constructor
  · intro hu
    induction hu with
    | self t => exact .self t
    | @above t s u hs _ ih =>
      have hlt : t + 1 < parents.length + 1 := h.length_eq ▸ ht
      have hlt : t < parents.length := Nat.lt_of_succ_lt_succ hlt
      rw [List.getElem?_append_left hlt] at hs
      have hle := h.parent_le t s hs
      exact .above hs (ih (Nat.lt_of_le_of_lt hle (Nat.lt_of_succ_lt ht)))
  · exact fun hu => hu.append _

/-- The ancestors of a new token are those of the token that it is below. -/
theorem Grown.under_fresh_iff (h : Grown parents cancels ts) (hp : parent < ts.nodes.length) :
    Under (parents ++ [parent]) ts.fresh u ↔ u = ts.fresh ∨ Under parents parent u := by
  have hfresh : ts.fresh = parents.length + 1 := h.length_eq
  rw [hfresh, under_succ_iff List.getElem?_concat_length, h.under_append_iff hp]

theorem grown_start : Grown [] [] (start false) := by
  have hzero : ∀ t < (start false).nodes.length, t = 0 := fun t ht => Nat.lt_one_iff.mp ht
  constructor
  case length_eq => rfl
  case parent_le => exact nofun
  case cancels_lt => exact nofun
  case mem_lineage_iff =>
    intro t ht u
    rw [hzero t ht]
    constructor
    · intro hu
      rw [List.mem_singleton.mp hu]
      exact .self root
    · rintro ⟨⟩
      exact List.mem_singleton_self root
  case isCancelled_iff =>
    intro t ht
    rw [hzero t ht]
    exact ⟨nofun, nofun⟩

theorem Grown.child (h : Grown parents cancels ts) (hp : parent < ts.nodes.length) :
    Grown (parents ++ [parent]) cancels (ts.child parent) := by
  have hcases : ∀ t < (ts.child parent).nodes.length, t < ts.nodes.length ∨ t = ts.fresh := by
    intro t ht
    rw [length_child] at ht
    exact Nat.lt_succ_iff_lt_or_eq.mp ht
  constructor
  case length_eq => rw [length_child, h.length_eq, List.length_append, List.length_singleton]
  case parent_le =>
    intro k s hs
    obtain hk | hk := Nat.lt_or_ge k parents.length
    · rw [List.getElem?_append_left hk] at hs
      exact h.parent_le k s hs
    · -- the new token is made below one that is there
      rw [List.getElem?_append_right hk, List.getElem?_singleton] at hs
      split at hs
      · obtain rfl := Option.some.inj hs
        have hle : parent < parents.length + 1 := h.length_eq ▸ hp
        exact Nat.le_trans (Nat.le_of_lt_succ hle) hk
      · cases hs
  case cancels_lt =>
    intro u hu
    rw [length_child]
    exact Nat.lt_succ_of_lt (h.cancels_lt u hu)
  case mem_lineage_iff =>
    intro t ht u
    obtain ht | rfl := hcases t ht
    · rw [lineage_child_of_lt ht, h.mem_lineage_iff t ht, h.under_append_iff ht]
    · rw [lineage_child_fresh, List.mem_cons, h.mem_lineage_iff parent hp, h.under_fresh_iff hp]
  case isCancelled_iff =>
    intro t ht
    obtain ht | rfl := hcases t ht
    · simp only [isCancelled_child_of_lt ht, h.isCancelled_iff t ht, h.under_append_iff ht]
    · -- the new token itself has not been cancelled
      rw [isCancelled_child_fresh, h.isCancelled_iff parent hp]
      refine exists_congr fun u => and_congr_right fun hu => ?_
      have hne : u ≠ ts.fresh := Nat.ne_of_lt (h.cancels_lt u hu)
      simp only [h.under_fresh_iff hp, hne, false_or]

theorem Grown.cancel (h : Grown parents cancels ts) (hu : u < ts.nodes.length) :
    Grown parents (cancels ++ [u]) (ts.cancel u) := by
  constructor
  case length_eq => rw [length_cancel, h.length_eq]
  case parent_le => exact h.parent_le
  case cancels_lt =>
    intro v hv
    rw [length_cancel]
    rcases List.mem_append.mp hv with hv | hv
    · exact h.cancels_lt v hv
    · rw [List.mem_singleton.mp hv]
      exact hu
  case mem_lineage_iff =>
    intro t ht v
    rw [length_cancel] at ht
    rw [lineage_cancel, h.mem_lineage_iff t ht]
  case isCancelled_iff =>
    intro t ht
    rw [length_cancel] at ht
    rw [isCancelled_cancel_eq, Bool.or_eq_true, h.isCancelled_iff t ht, decide_eq_true_iff,
      h.mem_lineage_iff t ht]
    simp only [List.mem_append, List.mem_singleton, or_and_right, exists_or, exists_eq_left]

theorem Grown.after (h : Grown parents cancels ts) {acts : List Act} (hknows : ts.Knows acts) :
    Grown (parents ++ acts.filterMap (·.parent?)) (cancels ++ acts.filterMap (·.cancelled?))
      (ts.after acts) := by
  induction acts generalizing parents cancels ts with
  | nil =>
    rw [List.filterMap_nil, List.filterMap_nil, List.append_nil, List.append_nil]
    exact h
  | cons a acts ih =>
    obtain ⟨hnamed, hknows⟩ := hknows
    cases a with
    | child parent =>
      have hlater := ih (h.child hnamed) hknows
      rw [List.append_assoc] at hlater
      exact hlater
    | cancel u =>
      have hlater := ih (h.cancel hnamed) hknows
      rw [List.append_assoc] at hlater
      exact hlater

/-! ### Trees that grew from their root -/

/-- The tree came about from its root, cancelled or not, by what can happen to a tree. -/
def IsGrown (ts : Tokens) : Prop :=
  ∃ acts, (start false).Knows acts ∧ ts = (start false).after acts

theorem isGrown_start (cancelled : Bool) : (start cancelled).IsGrown := by
  cases cancelled with
  | false => exact ⟨[], trivial, rfl⟩
  | true => exact ⟨[.cancel root], ⟨Nat.zero_lt_one, trivial⟩, rfl⟩

namespace IsGrown

theorem act (h : ts.IsGrown) {a : Act} (ha : a.named < ts.nodes.length) : (ts.act a).IsGrown := by
  obtain ⟨acts, hknows, rfl⟩ := h
  refine ⟨acts ++ [a], knows_append.mpr ⟨hknows, ha, trivial⟩, ?_⟩
  rw [after, after, List.foldl_append]
  rfl

theorem child (h : ts.IsGrown) (ht : t < ts.nodes.length) : (ts.child t).IsGrown :=
  h.act (a := .child t) ht

theorem cancel (h : ts.IsGrown) (ht : t < ts.nodes.length) : (ts.cancel t).IsGrown :=
  h.act (a := .cancel t) ht

theorem grown (h : ts.IsGrown) : ∃ parents cancels, Grown parents cancels ts := by
  obtain ⟨acts, hknows, rfl⟩ := h
  exact ⟨_, _, grown_start.after hknows⟩

theorem root_lt (h : ts.IsGrown) : root < ts.nodes.length := by
  obtain ⟨parents, cancels, hgrown⟩ := h.grown
  rw [hgrown.length_eq]
  exact Nat.succ_pos _

theorem self_mem_lineage (h : ts.IsGrown) (ht : t < ts.nodes.length) : t ∈ ts.lineage t := by
  obtain ⟨parents, cancels, hgrown⟩ := h.grown
  exact (hgrown.mem_lineage_iff t ht t).mpr (.self t)

/-- Tokens are made after their ancestors. -/
theorem le_of_mem_lineage (h : ts.IsGrown) (ht : t < ts.nodes.length) (hu : u ∈ ts.lineage t) :
    u ≤ t := by
  obtain ⟨parents, cancels, hgrown⟩ := h.grown
  have hunder := (hgrown.mem_lineage_iff t ht u).mp hu
  clear ht hu
  induction hunder with
  | self t => exact Nat.le_refl t
  | above hs _ ih => exact Nat.le_succ_of_le (Nat.le_trans ih (hgrown.parent_le _ _ hs))

/-- The root is above all tokens. -/
theorem root_mem_lineage (h : ts.IsGrown) (ht : t < ts.nodes.length) : root ∈ ts.lineage t := by
  obtain ⟨parents, cancels, hgrown⟩ := h.grown
  rw [hgrown.mem_lineage_iff t ht]
  rw [hgrown.length_eq] at ht
  induction t using Nat.strongRecOn with
  | ind t ih =>
    cases t with
    | zero => exact .self root
    | succ k =>
      have hk : k < parents.length := Nat.lt_of_succ_lt_succ ht
      have hs : parents[k]? = some parents[k] := List.getElem?_eq_getElem hk
      have hle := Nat.lt_succ_of_le (hgrown.parent_le k _ hs)
      exact .above hs (ih _ hle (Nat.lt_trans hle ht))

/-- No token is above the root. -/
theorem mem_lineage_root_iff (h : ts.IsGrown) : u ∈ ts.lineage root ↔ u = root := by
  constructor
  · exact fun hu => Nat.le_zero.mp (h.le_of_mem_lineage h.root_lt hu)
  · rintro rfl
    exact h.self_mem_lineage h.root_lt

end IsGrown

/-! ### What is left alone -/

/-- Nothing has changed about the tokens of one tree in a later one, unless the root has been
cancelled, and all of them with it. -/
structure Spares (ts : Tokens) (cancelsRoot : Bool) (later : Tokens) : Prop where
  isGrown : later.IsGrown
  length_le : ts.nodes.length ≤ later.nodes.length
  lineage_eq : ∀ t < ts.nodes.length, later.lineage t = ts.lineage t
  isCancelled_eq : ∀ t < ts.nodes.length, later.isCancelled t = (ts.isCancelled t || cancelsRoot)

namespace Spares

variable {later last : Tokens} {c d : Bool}

theorem refl (h : ts.IsGrown) : ts.Spares false ts where
  isGrown := h
  length_le := Nat.le_refl _
  lineage_eq _ _ := rfl
  isCancelled_eq _ _ := (Bool.or_false _).symm

theorem trans (h : ts.Spares c later) (h' : later.Spares d last) : ts.Spares (c || d) last where
  isGrown := h'.isGrown
  length_le := Nat.le_trans h.length_le h'.length_le
  lineage_eq t ht := by
    rw [h'.lineage_eq t (Nat.lt_of_lt_of_le ht h.length_le), h.lineage_eq t ht]
  isCancelled_eq t ht := by
    rw [h'.isCancelled_eq t (Nat.lt_of_lt_of_le ht h.length_le), h.isCancelled_eq t ht,
      Bool.or_assoc]

theorem child (h : ts.Spares c later) (ht : t < later.nodes.length) :
    ts.Spares c (later.child t) where
  isGrown := h.isGrown.child ht
  length_le := by
    rw [length_child]
    exact Nat.le_succ_of_le h.length_le
  lineage_eq u hu := by
    rw [lineage_child_of_lt (Nat.lt_of_lt_of_le hu h.length_le), h.lineage_eq u hu]
  isCancelled_eq u hu := by
    rw [isCancelled_child_of_lt (Nat.lt_of_lt_of_le hu h.length_le), h.isCancelled_eq u hu]

/-- Cancelling the root cancels every token. -/
theorem cancel_root (h : ts.Spares c later) : ts.Spares true (later.cancel root) where
  isGrown := h.isGrown.cancel h.isGrown.root_lt
  length_le := by
    rw [length_cancel]
    exact h.length_le
  lineage_eq u hu := by rw [lineage_cancel, h.lineage_eq u hu]
  isCancelled_eq u hu := by
    have hmem := h.isGrown.root_mem_lineage (Nat.lt_of_lt_of_le hu h.length_le)
    rw [isCancelled_cancel_eq, decide_eq_true hmem, Bool.or_true, Bool.or_true]

/-- Cancelling a token that was made since leaves all earlier tokens alone. -/
theorem cancel_new (h : ts.Spares c later) (hnew : ts.nodes.length ≤ t)
    (ht : t < later.nodes.length) : ts.Spares c (later.cancel t) where
  isGrown := h.isGrown.cancel ht
  length_le := by
    rw [length_cancel]
    exact h.length_le
  lineage_eq u hu := by rw [lineage_cancel, h.lineage_eq u hu]
  isCancelled_eq u hu := by
    have hmem : t ∉ later.lineage u := fun hmem =>
      have hle := h.isGrown.le_of_mem_lineage (Nat.lt_of_lt_of_le hu h.length_le) hmem
      Nat.lt_irrefl u (Nat.lt_of_lt_of_le hu (Nat.le_trans hnew hle))
    rw [isCancelled_cancel_eq, decide_eq_false hmem, Bool.or_false, h.isCancelled_eq u hu]

end Spares

end EmojiCatalog.Tokens
