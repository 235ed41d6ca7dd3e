import EmojiCatalog.Proofs.Tokens
import EmojiCatalog.TestCase.Activity
/-!
The performance of activities.

An activity under a budget ends, as what would wait for ever expires instead, and one without a
budget does not expire (`perform_isPossible`).

What an activity does depends on the tokens only by what it sees of them through its handles.  Two
activities that do the same up to a relation between their states (`Activity.Alike`), performed at
the same time with tokens that look the same (`Tokens.Alike`), end the same, cancel the same and
leave scenes that are again alike (`Activity.Alike.perform`).

`Activity.cancels` are the tokens that an activity cancels itself.  Of the tokens that were there
before its own token was made it changes none, unless it cancels the root (`perform_spares`).
-/

namespace EmojiCatalog

/-! ### Endings -/

/-- The ways in which a run can end under a budget. -/
def RunEnd.IsPossible (budget : Option Duration) : RunEnd → Prop
  | .returned _ => True
  | .expired => budget ≠ none
  | .never => budget = none

namespace Activity

variable {σ τ : Type} {budget : Option Duration} {own : Token}

theorem ne_none_of_outlasts {t : Duration} (h : outlasts t budget) : budget ≠ none := by
  rintro rfl
  cases h

theorem ne_none_of_isUsedUp {t : Duration} (h : isUsedUp t budget) : budget ≠ none := by
  rintro rfl
  cases h

/-- Only under a budget does an activity expire, and only without one does it wait for ever. -/
theorem perform_isPossible (x : Activity σ) (s : Scene σ) :
    (x.perform budget own s).1.IsPossible budget := by
  induction x generalizing s with
  | finish state fault => trivial
  | keep state rest ih => exact ih _
  | log events rest ih => exact ih _
  | look handle rest ih => exact ih _ _
  | cancel handle rest ih => exact ih _
  | sleep d rest ih =>
    rw [perform]
    split
    next h => exact ne_none_of_outlasts h
    next => exact ih _
  | await handle rest ih =>
    rw [perform]
    split
    next => exact ih _
    next =>
      cases budget with
      | none => rfl
      | some d => exact nofun
  | yield rest ih =>
    rw [perform]
    split
    next h => exact ne_none_of_isUsedUp h
    next => exact ih _

end Activity

/-! ### Cancellations -/

namespace Activity

variable {σ : Type}

/-- The tokens that an activity cancels while it is performed, in order. -/
def cancels (budget : Option Duration) (own : Token) : Activity σ → Scene σ → List Handle
  | finish _ _, _ => []
  | keep state rest, s => rest.cancels budget own { s with state := state }
  | log events rest, s => rest.cancels budget own { s with events := s.events ++ events }
  | look h rest, s => (rest (s.tokens.isCancelled (tokenOf own h))).cancels budget own s
  | cancel h rest, s =>
    h :: rest.cancels budget own { s with tokens := s.tokens.cancel (tokenOf own h) }
  | sleep d rest, s =>
    let woken : Duration := ⟨s.elapsed.nanos + d.nanos⟩
    if outlasts woken budget then [] else rest.cancels budget own { s with elapsed := woken }
  | await h rest, s =>
    if s.tokens.isCancelled (tokenOf own h) then rest.cancels budget own s else []
  | yield rest, s => if isUsedUp s.elapsed budget then [] else rest.cancels budget own s

/-- An activity changes nothing about the tokens that are older than its own, unless it cancels the
root. -/
theorem perform_spares (budget : Option Duration) {own : Token} {ts : Tokens} {c : Bool}
    (x : Activity σ) {s : Scene σ} (h : ts.Spares c s.tokens) (hold : ts.nodes.length ≤ own)
    (hown : own < s.tokens.nodes.length) :
    ts.Spares (c || decide (.root ∈ x.cancels budget own s)) (x.perform budget own s).2.tokens ∧
      own < (x.perform budget own s).2.tokens.nodes.length := by
  -- an activity that comes to its end here cancels nothing more
  have hend : ∀ {c : Bool} {s : Scene σ}, ts.Spares c s.tokens → own < s.tokens.nodes.length →
      ts.Spares (c || decide (Handle.root ∈ [])) s.tokens ∧ own < s.tokens.nodes.length := by
    intro c s h hown
    rw [decide_eq_false List.not_mem_nil, Bool.or_false]
    exact ⟨h, hown⟩
  induction x generalizing s c with
  | finish state fault => exact hend h hown
  | keep state rest ih => exact ih h hown
  | log events rest ih => exact ih h hown
  | look handle rest ih => exact ih _ h hown
  | cancel handle rest ih =>
    have hown' : own < (s.tokens.cancel (tokenOf own handle)).nodes.length := by
      rw [Tokens.length_cancel]
      exact hown
    rw [perform, cancels]
    cases handle with
    | own =>
      have hrest := ih (s := { s with tokens := s.tokens.cancel own })
        (h.cancel_new hold hown) hown'
      simp only [List.mem_cons, reduceCtorEq, false_or]
      exact hrest
    | root =>
      have hrest := ih (s := { s with tokens := s.tokens.cancel Tokens.root }) h.cancel_root hown'
      rw [Bool.true_or] at hrest
      rw [decide_eq_true List.mem_cons_self, Bool.or_true]
      exact hrest
  | sleep d rest ih =>
    rw [perform, cancels]
    split
    next => exact hend h hown
    next => exact ih h hown
  | await handle rest ih =>
    rw [perform, cancels]
    split
    next => exact ih h hown
    next => exact hend h hown
  | yield rest ih =>
    rw [perform, cancels]
    split
    next => exact hend h hown
    next => exact ih h hown

end Activity

/-! ### Activities that do the same -/

namespace Activity

variable {σ τ : Type}

/-- Two activities do the same, but for related states. -/
inductive Alike (R : σ → τ → Prop) : Activity σ → Activity τ → Prop
  | finish {a b} (fault) : R a b → Alike R (.finish a fault) (.finish b fault)
  | keep {a b x y} : R a b → Alike R x y → Alike R (.keep a x) (.keep b y)
  | log {x y} (events) : Alike R x y → Alike R (.log events x) (.log events y)
  | look {x y} (h) : (∀ cancelled, Alike R (x cancelled) (y cancelled)) →
      Alike R (.look h x) (.look h y)
  | cancel {x y} (h) : Alike R x y → Alike R (.cancel h x) (.cancel h y)
  | sleep {x y} (d) : Alike R x y → Alike R (.sleep d x) (.sleep d y)
  | await {x y} (h) : Alike R x y → Alike R (.await h x) (.await h y)
  | yield {x y} : Alike R x y → Alike R (.yield x) (.yield y)

theorem Alike.refl (x : Activity σ) : Alike Eq x x := by
  induction x with
  | finish state fault => exact .finish fault rfl
  | keep state rest ih => exact .keep rfl ih
  | log events rest ih => exact .log events ih
  | look handle rest ih => exact .look handle ih
  | cancel handle rest ih => exact .cancel handle ih
  | sleep d rest ih => exact .sleep d ih
  | await handle rest ih => exact .await handle ih
  | yield rest ih => exact .yield ih

theorem Alike.sleepFor {R : σ → τ → Prop} {x : Activity σ} {y : Activity τ} (h : x.Alike R y)
    (d : Option Duration) : (Activity.sleepFor d x).Alike R (Activity.sleepFor d y) := by
  cases d with
  | none => exact h
  | some d => exact .sleep d h

theorem Alike.onlyIf {R : σ → τ → Prop} {x : Activity σ} {y : Activity τ} (h : x.Alike R y)
    (condition : Bool) {f : Activity σ → Activity σ} {g : Activity τ → Activity τ}
    (hstep : ∀ {x y}, Alike R x y → Alike R (f x) (g y)) :
    (Activity.onlyIf condition f x).Alike R (Activity.onlyIf condition g y) := by
  cases condition with
  | false => exact h
  | true => exact hstep h

end Activity

section

open Activity (tokenOf)

/-- Two trees look the same through the handles of two runs. -/
structure Tokens.Alike (own own' : Token) (ts ts' : Tokens) : Prop where
  isCancelled_eq : ∀ h, ts.isCancelled (tokenOf own h) = ts'.isCancelled (tokenOf own' h)
  mem_lineage_iff : ∀ g h, tokenOf own g ∈ ts.lineage (tokenOf own h) ↔
    tokenOf own' g ∈ ts'.lineage (tokenOf own' h)

namespace Tokens.Alike

variable {own own' : Token} {ts ts' : Tokens}

theorem refl (own : Token) (ts : Tokens) : Tokens.Alike own own ts ts where
  isCancelled_eq _ := rfl
  mem_lineage_iff _ _ := Iff.rfl

theorem cancel (h : Tokens.Alike own own' ts ts') (handle : Handle) :
    Tokens.Alike own own' (ts.cancel (tokenOf own handle)) (ts'.cancel (tokenOf own' handle)) where
  isCancelled_eq g := by
    simp only [Tokens.isCancelled_cancel_eq, h.isCancelled_eq, h.mem_lineage_iff]
  mem_lineage_iff g k := by
    rw [Tokens.lineage_cancel, Tokens.lineage_cancel]
    exact h.mem_lineage_iff g k

end Tokens.Alike

end

/-- Two scenes at the same time, with the same log and with tokens that look the same, in related
states. -/
structure Scene.Alike {σ τ : Type} (R : σ → τ → Prop) (own own' : Token) (s : Scene σ)
    (t : Scene τ) : Prop where
  state : R s.state t.state
  tokens : s.tokens.Alike own own' t.tokens
  elapsed : s.elapsed = t.elapsed
  events : s.events = t.events

/-- What does the same ends the same, cancels the same, and leaves scenes that are alike. -/
theorem Activity.Alike.perform {σ τ : Type} {R : σ → τ → Prop} {x : Activity σ} {y : Activity τ}
    (hxy : x.Alike R y) {budget : Option Duration} {own own' : Token} {s : Scene σ} {t : Scene τ}
    (hst : s.Alike R own own' t) :
    (x.perform budget own s).1 = (y.perform budget own' t).1 ∧
      x.cancels budget own s = y.cancels budget own' t ∧
      (x.perform budget own s).2.Alike R own own' (y.perform budget own' t).2 := by
  induction hxy generalizing s t with
  | finish fault h => exact ⟨rfl, rfl, h, hst.tokens, hst.elapsed, hst.events⟩
  | keep h _ ih => exact ih ⟨h, hst.tokens, hst.elapsed, hst.events⟩
  | log events _ ih =>
    exact ih ⟨hst.state, hst.tokens, hst.elapsed, congrArg (· ++ events) hst.events⟩
  | look handle _ ih =>
    rw [Activity.perform, Activity.perform, Activity.cancels, Activity.cancels,
      hst.tokens.isCancelled_eq]
    exact ih _ hst
  | cancel handle _ ih =>
    rw [Activity.perform, Activity.perform, Activity.cancels, Activity.cancels, List.cons_eq_cons]
    have hrest := ih (s := { s with tokens := s.tokens.cancel (Activity.tokenOf own handle) })
      (t := { t with tokens := t.tokens.cancel (Activity.tokenOf own' handle) })
      ⟨hst.state, hst.tokens.cancel handle, hst.elapsed, hst.events⟩
    exact ⟨hrest.1, ⟨rfl, hrest.2.1⟩, hrest.2.2⟩
  | sleep d _ ih =>
    rw [Activity.perform, Activity.perform, Activity.cancels, Activity.cancels, hst.elapsed]
    split
    next => exact ⟨rfl, rfl, hst⟩
    next => exact ih ⟨hst.state, hst.tokens, rfl, hst.events⟩
  | await handle _ ih =>
    rw [Activity.perform, Activity.perform, Activity.cancels, Activity.cancels,
      hst.tokens.isCancelled_eq]
    split
    next => exact ih hst
    next => exact ⟨rfl, rfl, hst⟩
  | yield _ ih =>
    rw [Activity.perform, Activity.perform, Activity.cancels, Activity.cancels, hst.elapsed]
    split
    next => exact ⟨rfl, rfl, hst⟩
    next => exact ih hst

end EmojiCatalog
