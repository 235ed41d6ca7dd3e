import EmojiCatalog.Fault
import EmojiCatalog.Log
import EmojiCatalog.Tokens
/-!
What the run of a test case does, and its performance under a time budget.

An `Activity` is a finite tree of what a run does that can be noticed from outside: it keeps a
state, writes to the log, looks at tokens, cancels them, and waits.  It knows tokens by their role
only, so what it does cannot depend on how many tokens there are.

Time is virtual.  It passes only while a run sleeps, and by exactly as much.  `Activity.perform`
ends early when waiting would outlast the budget; what the run has kept until then remains.  The
budget is looked at only where a run waits, so a run that never waits is not cut off, however long
it keeps its thread busy.  Nobody else is at work during a run, so a wait for a token that is not
cancelled lasts as long as the budget, and for ever when there is none.
-/

namespace EmojiCatalog

/-- The tokens that a case can reach. -/
inductive Handle where
  /-- The token handed to the run. -/
  | own
  /-- The token above all others. -/
  | root
  deriving DecidableEq, Repr

/-- What a run does, in order. -/
inductive Activity (σ : Type) where
  /-- Ends with a state, and with a fault or without. -/
  | finish (state : σ) (fault : Option CaseFault)
  /-- Keeps a state. -/
  | keep (state : σ) (rest : Activity σ)
  | log (events : List Log.Event) (rest : Activity σ)
  /-- Looks whether a token is cancelled. -/
  | look (h : Handle) (rest : Bool → Activity σ)
  | cancel (h : Handle) (rest : Activity σ)
  | sleep (d : Duration) (rest : Activity σ)
  /-- Waits until a token is cancelled. -/
  | await (h : Handle) (rest : Activity σ)
  /-- Lets others go on; this takes no time, but waits all the same. -/
  | yield (rest : Activity σ)

/-- What a run acts upon. -/
structure Scene (σ : Type) where
  state : σ
  tokens : Tokens
  elapsed : Duration := .zero
  events : List Log.Event := []

/-- How a run ends. -/
inductive RunEnd where
  | returned (fault : Option CaseFault)
  /-- The budget was over first. -/
  | expired
  /-- It waits for ever. -/
  | never
  deriving DecidableEq, Repr

namespace Activity

variable {σ : Type}

/-- Does something on a condition, and goes on. -/
def onlyIf (condition : Bool) (step : Activity σ → Activity σ) (rest : Activity σ) : Activity σ :=
  if condition then step rest else rest

/-- Sleeps for a time, if there is one, and goes on. -/
def sleepFor (d : Option Duration) (rest : Activity σ) : Activity σ :=
  match d with
  | some d => sleep d rest
  | none => rest

/-- The token that a handle stands for. -/
def tokenOf (own : Token) : Handle → Token
  | .own => own
  | .root => Tokens.root

/-- Whether a time is beyond the budget. -/
def outlasts (t : Duration) : Option Duration → Bool
  | some budget => budget.nanos < t.nanos
  | none => false

/-- Whether a budget is used up at a time. -/
def isUsedUp (t : Duration) : Option Duration → Bool
  | some budget => budget.nanos ≤ t.nanos
  | none => false

/-- Performs an activity with its own token under a budget. -/
def perform (budget : Option Duration) (own : Token) : Activity σ → Scene σ → RunEnd × Scene σ
  | finish state fault, s => (.returned fault, { s with state := state })
  | keep state rest, s => rest.perform budget own { s with state := state }
  | log events rest, s => rest.perform budget own { s with events := s.events ++ events }
  | look h rest, s => (rest (s.tokens.isCancelled (tokenOf own h))).perform budget own s
  | cancel h rest, s => rest.perform budget own { s with tokens := s.tokens.cancel (tokenOf own h) }
  | sleep d rest, s =>
    let woken : Duration := ⟨s.elapsed.nanos + d.nanos⟩
    if outlasts woken budget then (.expired, s)
    else rest.perform budget own { s with elapsed := woken }
  | await h rest, s =>
    if s.tokens.isCancelled (tokenOf own h) then rest.perform budget own s
    else (if budget.isSome then .expired else .never, s)
  | yield rest, s =>
    if isUsedUp s.elapsed budget then (.expired, s) else rest.perform budget own s

end Activity

end EmojiCatalog
