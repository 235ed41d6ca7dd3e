import EmojiCatalog.Proofs.Processor.Echo
import EmojiCatalog.Proofs.Run.Cutoff
/-!
Runs are isolated from each other.

A `Life` is the history of a processor with one start of a run singled out: what was done before,
below which token the run was started, and what was done later.  In this module the run of a life is
compared with what concerns it alone.

* Its token is cancelled exactly if the token or one of its ancestors was, at any time.  If that was
  so before the start, the run counts and delivers nothing.
* Two lives in which the same requests are put to the run, and its token and the tokens above it
  are cancelled at the same places between them, give it the same replies, whatever else is done,
  as long as the producers are at rest whenever anything is done but to let them go on.
-/

namespace EmojiCatalog

open Run (Trace Act Reply)

variable {α : Type}

/-! ### Producers at rest -/

namespace Processor

variable {p : Processor α} {i : Nat} {token : Token} {lineage : List Token} {t : Trace α}

/-- Every producer has ended or is held up. -/
def AtRest (p : Processor α) : Prop :=
  ∀ r ∈ p.runs, r.isFinished = true ∨ r.IsHeldUp (p.isCancelled r)

theorem atRest_iff_stepAny : p.AtRest ↔ p.stepAny = none := by
  rw [stepAny, List.findSome?_eq_none_iff]
  constructor
  · intro h i hi
    obtain ⟨r, hr⟩ : ∃ r, p.runs[i]? = some r :=
      ⟨_, List.getElem?_eq_getElem (List.mem_range.mp hi)⟩
    exact (stepRun_eq_none_iff hr).mpr (h _ (List.mem_of_getElem? hr))
  · intro h r hmem
    obtain ⟨i, hr⟩ := List.getElem?_of_mem hmem
    have hlt : i < p.runs.length := (List.getElem?_eq_some_iff.mp hr).1
    exact (stepRun_eq_none_iff hr).mp (h i (List.mem_range.mpr hlt))

instance : Decidable p.AtRest :=
  decidable_of_iff (p.stepAny.isNone = true) (by rw [Option.isNone_iff_eq_none, atRest_iff_stepAny])

theorem Echoes.atRest (h : Echoes p i token lineage t) (hrest : p.AtRest) : t.AtRest := by
  obtain ⟨r, hr, -, hanonymous, hmark⟩ := h.exists_run
  have hown := hrest r (List.mem_of_getElem? hr)
  rw [hmark] at hown
  rw [Trace.AtRest, ← hanonymous, Run.isFinished_anonymous, Run.isHeldUp_anonymous]
  exact hown

end Processor

/-- Whether a deed is a step of a producer. -/
def Deed.isStep : Deed → Bool
  | .step _ => true
  | _ => false

namespace Chronicle

/-- All producers are at rest whenever something else is done than to let them go on. -/
def Orderly (ch : Chronicle α) : List Deed → Prop
  | [] => True
  | d :: deeds => (d.isStep = false → ch.processor.AtRest) ∧ (ch.act d).Orderly deeds

instance decidableOrderly (ch : Chronicle α) : (deeds : List Deed) → Decidable (ch.Orderly deeds)
  | [] => inferInstanceAs (Decidable True)
  | d :: deeds =>
    have := decidableOrderly (ch.act d) deeds
    inferInstanceAs (Decidable ((d.isStep = false → ch.processor.AtRest) ∧
      (ch.act d).Orderly deeds))

variable {ch : Chronicle α} {i : Nat} {token : Token} {lineage : List Token} {t : Trace α}
variable {deeds later : List Deed}

theorem orderly_append :
    ch.Orderly (deeds ++ later) ↔ ch.Orderly deeds ∧ (ch.after deeds).Orderly later := by
  induction deeds generalizing ch with
  | nil => exact (iff_of_eq (true_and _)).symm
  | cons d deeds ih =>
    rw [List.cons_append, Orderly, Orderly, ih, and_assoc]
    rfl

/-- In an orderly history of a processor the own parts of its runs are orderly. -/
theorem orderly_runActs (hpure : ch.processor.payload.IsPure)
    (h : ch.processor.Echoes i token lineage t) (horderly : ch.Orderly deeds) :
    t.Orderly ch.processor.payload.unstamped (ch.runActs i lineage deeds) := by
  induction deeds generalizing ch t with
  | nil => trivial
  | cons d deeds ih =>
    obtain ⟨hrest, hlater⟩ := horderly
    have hpayload := payload_act ch d
    obtain ⟨hact, -⟩ := echoes_act hpure h d
    have hown := ih (hpayload ▸ hpure) hact hlater
    rw [hpayload, runActs_act] at hown
    rw [runActs_cons]
    cases hd : d.onRun ch.processor.metrics i lineage with
    | none =>
      rw [hd] at hown
      exact hown
    | some a =>
      rw [hd] at hown
      refine ⟨fun ha => h.atRest (hrest ?_), hown⟩
      cases d with
      | step j =>
        rw [Deed.onRun] at hd
        split at hd
        · exact absurd (Option.some.inj hd).symm ha
        · cases hd
      | _ => rfl

end Chronicle

/-! ### Lives -/

/-- A history of a processor in which the start of a run is singled out. -/
structure Life where
  before : List Deed
  /-- The token below which the run is started. -/
  parent : Token
  later : List Deed

namespace Life

/-- All deeds of the history. -/
def deeds (l : Life) : List Deed := l.before ++ .start l.parent :: l.later

section

variable (l : Life) (ch : Chronicle α)

/-- The chronicle just after the start of the run. -/
def born : Chronicle α := (ch.after l.before).act (.start l.parent)

/-- The number of the run. -/
def number : Nat := (ch.after l.before).processor.runs.length

/-- The token of the run. -/
def token : Token := (ch.after l.before).processor.tokens.fresh

/-- The token of the run with all its ancestors. -/
def lineage : List Token := (l.born ch).processor.tokens.lineage (l.token ch)

/-- The run at the end of the history. -/
def run : Option (Run α) := (ch.after l.deeds).processor.runs[l.number ch]?

/-- The replies of the run. -/
def replies : List (Reply α) := (l.born ch).replies (l.number ch) l.later

/-- What happens to the run before and after its start, without the steps of its producer. -/
def own : List Act × List Act :=
  ((ch.runActs (l.number ch) (l.lineage ch) l.before).filter (· ≠ .produce),
    (ch.runActs (l.number ch) (l.lineage ch) l.later).filter (· ≠ .produce))

end

end Life

namespace Chronicle

/-- Every deed is about tokens that have been made by then. -/
def Knows (ch : Chronicle α) (deeds : List Deed) : Prop :=
  ch.processor.tokens.Knows (ch.tokenActs deeds)

instance (ch : Chronicle α) (deeds : List Deed) : Decidable (ch.Knows deeds) :=
  inferInstanceAs (Decidable (ch.processor.tokens.Knows (ch.tokenActs deeds)))

/-- The tokens below which tokens are made, one after the other. -/
def parents (ch : Chronicle α) (deeds : List Deed) : List Token :=
  (ch.tokenActs deeds).filterMap (·.parent?)

/-- The tokens that are cancelled. -/
def cancels (ch : Chronicle α) (deeds : List Deed) : List Token :=
  (ch.tokenActs deeds).filterMap (·.cancelled?)

end Chronicle

/-! ### Tokens -/

theorem Deed.onRun_eq_cancel_iff {metrics : Metrics} {i : Nat} {lineage : List Token}
    {d : Deed} : d.onRun metrics i lineage = some .cancel
      ↔ ∃ u, d.onTokens metrics = some (.cancel u) ∧ u ∈ lineage := by
  have hbind : (d.onTokens metrics).bind (·.onRun lineage) = some .cancel
      ↔ ∃ u, d.onTokens metrics = some (.cancel u) ∧ u ∈ lineage := by
    rw [Option.bind_eq_some_iff]
    constructor
    · rintro ⟨a, ha, hcancel⟩
      cases a with
      | child parent => cases hcancel
      | cancel u =>
        rw [Tokens.Act.onRun] at hcancel
        split at hcancel
        next hu => exact ⟨u, ha, hu⟩
        next => cases hcancel
    · rintro ⟨u, ha, hu⟩
      exact ⟨_, ha, if_pos hu⟩
  cases d with
  | step j | serve j q =>
    rw [Deed.onRun, ite_eq_iff]
    simp [Deed.onTokens]
  | _ => exact hbind

namespace Chronicle

variable {ch : Chronicle α} {deeds : List Deed} {u : Token}

theorem mem_cancels_iff :
    u ∈ ch.cancels deeds ↔ ∃ d ∈ deeds, d.onTokens ch.processor.metrics = some (.cancel u) := by
  rw [cancels, tokenActs]
  simp only [List.mem_filterMap]
  constructor
  · rintro ⟨a, ⟨d, hd, ha⟩, hu⟩
    cases a with
    | child parent => cases hu
    | cancel u =>
      cases hu
      exact ⟨d, hd, ha⟩
  · rintro ⟨d, hd, ha⟩
    exact ⟨_, ⟨d, hd, ha⟩, rfl⟩

/-- What cancels a run is that a token of its lineage is cancelled. -/
theorem cancel_mem_runActs_iff {i : Nat} {lineage : List Token} :
    .cancel ∈ ch.runActs i lineage deeds ↔ ∃ u ∈ ch.cancels deeds, u ∈ lineage := by
  rw [runActs, List.mem_filterMap]
  simp only [Deed.onRun_eq_cancel_iff, mem_cancels_iff]
  constructor
  · rintro ⟨d, hd, u, ha, hu⟩
    exact ⟨u, ⟨d, hd, ha⟩, hu⟩
  · rintro ⟨u, ⟨d, hd, ha⟩, hu⟩
    exact ⟨d, hd, u, ha, hu⟩

/-- The tree of tokens is the one that the deeds make of the root. -/
theorem grown_after (hpure : ch.processor.payload.IsPure)
    (hstart : ch.processor.tokens = .start false) (hknows : ch.Knows deeds) :
    Tokens.Grown (ch.parents deeds) (ch.cancels deeds) (ch.after deeds).processor.tokens := by
  rw [tokens_after hpure, hstart]
  exact Tokens.grown_start.after (hstart ▸ hknows)

end Chronicle

/-! ### The start of the run -/

namespace Life

variable {l l' : Life} {ch : Chronicle α}

theorem after_deeds (l : Life) (ch : Chronicle α) :
    ch.after l.deeds = (l.born ch).after l.later :=
  ch.after_append l.before (.start l.parent :: l.later)

theorem settings_born (l : Life) (ch : Chronicle α) :
    (l.born ch).processor.settings = ch.processor.settings := by
  rw [born, Chronicle.settings_act, Chronicle.settings_after]

theorem runActs_born (l : Life) (ch : Chronicle α) (i : Nat) (lineage : List Token)
    (deeds : List Deed) : (l.born ch).runActs i lineage deeds = ch.runActs i lineage deeds := by
  have hmetrics : (l.born ch).processor.metrics = ch.processor.metrics :=
    congrArg (·.2.2.2) (settings_born l ch)
  rw [Chronicle.runActs, Chronicle.runActs, hmetrics]

theorem payload_born (l : Life) (ch : Chronicle α) :
    (l.born ch).processor.payload = ch.processor.payload :=
  congrArg (·.2.2.1) (settings_born l ch)

theorem knows_before (hpure : ch.processor.payload.IsPure) (hknows : ch.Knows l.deeds) :
    ch.Knows l.before ∧ l.parent < (ch.after l.before).processor.tokens.nodes.length := by
  rw [Chronicle.Knows, Chronicle.tokenActs, deeds, List.filterMap_append,
    Tokens.knows_append] at hknows
  obtain ⟨hbefore, hnamed, -⟩ := hknows
  rw [Chronicle.tokens_after hpure]
  exact ⟨hbefore, hnamed⟩

/-- The history of a run that has just been started below a token with the given mark. -/
def newborn (ch : Chronicle α) (cancelled : Bool) : Trace α :=
  (Trace.start ch.processor.catalog ch.processor.config Tokens.root).mark cancelled

theorem echoes_born (l : Life) (ch : Chronicle α) :
    (l.born ch).processor.Echoes (l.number ch) (l.token ch) (l.lineage ch)
      (newborn ch ((ch.after l.before).processor.tokens.isCancelled l.parent)) := by
  have hsettings := ch.settings_after l.before
  have hcatalog : (ch.after l.before).processor.catalog = ch.processor.catalog :=
    congrArg (·.1) hsettings
  have hconfig : (ch.after l.before).processor.config = ch.processor.config :=
    congrArg (·.2.1) hsettings
  constructor
  case run_eq =>
    refine ⟨_, List.getElem?_concat_length, rfl, ?_⟩
    rw [hcatalog, hconfig]
    rfl
  case cancelled_eq =>
    exact ((ch.after l.before).processor.tokens.isCancelled_child_fresh l.parent).symm
  case token_lt =>
    show l.token ch < ((ch.after l.before).processor.tokens.child l.parent).nodes.length
    rw [Tokens.length_child]
    exact Nat.lt_succ_self _
  case lineage_eq => rfl

theorem lineage_eq (l : Life) (ch : Chronicle α) :
    l.lineage ch = l.token ch :: (ch.after l.before).processor.tokens.lineage l.parent :=
  Tokens.lineage_child_fresh _ _

/-- The run is started below a cancelled token exactly if a token above it was cancelled before. -/
theorem isCancelled_parent_iff (hpure : ch.processor.payload.IsPure)
    (hstart : ch.processor.tokens = .start false) (hknows : ch.Knows l.deeds) :
    (ch.after l.before).processor.tokens.isCancelled l.parent = true ↔ .cancel ∈ (l.own ch).1 := by
  obtain ⟨hbefore, hparent⟩ := knows_before hpure hknows
  have hgrown := Chronicle.grown_after hpure hstart hbefore
  rw [own, List.mem_filter, hgrown.isCancelled_iff l.parent hparent]
  simp only [ne_eq, reduceCtorEq, not_false_eq_true, decide_true, and_true]
  rw [Chronicle.cancel_mem_runActs_iff, lineage_eq]
  refine exists_congr fun u => and_congr_right fun hu => ?_
  -- the token of the run has not been made yet
  have hne : u ≠ l.token ch := Nat.ne_of_lt (hgrown.cancels_lt u hu)
  rw [List.mem_cons, hgrown.mem_lineage_iff l.parent hparent]
  simp only [hne, false_or]

/-- The token of the run is the next after those made before, and is made below the given one. -/
theorem parents_token (hpure : ch.processor.payload.IsPure)
    (hstart : ch.processor.tokens = .start false) (hknows : ch.Knows l.deeds) :
    ∃ k, l.token ch = k + 1 ∧ (ch.parents l.deeds)[k]? = some l.parent := by
  obtain ⟨hbefore, -⟩ := knows_before hpure hknows
  refine ⟨(ch.parents l.before).length, (Chronicle.grown_after hpure hstart hbefore).length_eq, ?_⟩
  have hsplit : ch.parents l.deeds = ch.parents l.before ++ l.parent :: ch.parents l.later := by
    rw [Chronicle.parents, Chronicle.tokenActs, deeds, List.filterMap_append, List.filterMap_append]
    rfl
  rw [hsplit, List.getElem?_append_right (Nat.le_refl _), Nat.sub_self]
  rfl

/-! ### The run and its replies -/

/-- What happens to the run after its start. -/
def laterActs (l : Life) (ch : Chronicle α) : List Act :=
  ch.runActs (l.number ch) (l.lineage ch) l.later

/-- The run goes through its own part of what is done later. -/
theorem echoes_deeds (hpure : ch.processor.payload.IsPure) (l : Life) :
    let t := newborn ch ((ch.after l.before).processor.tokens.isCancelled l.parent)
    (ch.after l.deeds).processor.Echoes (l.number ch) (l.token ch) (l.lineage ch)
        (t.after (fun _ => ch.processor.payload.unstamped) (l.laterActs ch)) ∧
      (l.replies ch).map (·.unstamped)
        = t.replies ch.processor.payload.unstamped (l.laterActs ch) := by
  have hpayload := payload_born l ch
  have hboth := Chronicle.echoes_after (hpayload ▸ hpure) (echoes_born l ch) l.later
  rw [hpayload, runActs_born, ← after_deeds] at hboth
  exact hboth

/-- In an orderly history the replies, and the run at the end, are those of its own part without the
steps of its producer. -/
theorem replies_eq_alone (hpure : ch.processor.payload.IsPure) (horderly : ch.Orderly l.deeds) :
    let t := newborn ch ((ch.after l.before).processor.tokens.isCancelled l.parent)
    (l.replies ch).map (·.unstamped) = t.alone ch.processor.payload.unstamped (l.own ch).2 ∧
      ((ch.after l.deeds).processor.AtRest →
        (l.run ch).map (·.anonymous)
          = some (t.restAfter ch.processor.payload.unstamped (l.own ch).2).run) := by
  intro t
  obtain ⟨hechoes, hreplies⟩ := echoes_deeds hpure l
  have hlater : t.Orderly ch.processor.payload.unstamped (l.laterActs ch) := by
    have hpayload := payload_born l ch
    have hafter : (l.born ch).Orderly l.later := (Chronicle.orderly_append.mp horderly).2.2
    have hown := Chronicle.orderly_runActs (hpayload ▸ hpure) (echoes_born l ch) hafter
    rw [hpayload, runActs_born] at hown
    exact hown
  obtain ⟨halone, hrest⟩ := Trace.orderly_eq_alone hlater
  refine ⟨hreplies.trans halone, ?_⟩
  intro hatRest
  obtain ⟨r, hr, -, hanonymous⟩ := hechoes.run_eq
  have hsame : t.restAfter ch.processor.payload.unstamped (l.own ch).2 = _ := hrest.symm
  rw [run, hr, Option.map_some, hanonymous, hsame, Trace.settle_of_atRest (hechoes.atRest hatRest)]

/-- A run started below a cancelled token does nothing. -/
theorem nothing_of_cancelled_parent (hpure : ch.processor.payload.IsPure) (l : Life) {r : Run α}
    (hr : l.run ch = some r)
    (hmark : (ch.after l.before).processor.tokens.isCancelled l.parent = true) :
    r.counted = 0 ∧ r.emitted = 0 ∧ r.taken = 0 ∧ r.buffer = [] ∧
      ∀ x ∈ l.replies ch, x.records = [] := by
  obtain ⟨hechoes, hreplies⟩ := echoes_deeds hpure l
  obtain ⟨r', hr', -, hanonymous⟩ := hechoes.run_eq
  obtain rfl : r = r' := Option.some.inj (hr.symm.trans hr')
  rw [hmark] at hanonymous hreplies
  obtain ⟨hcounted, hemitted, htaken, hrecords, hbuffer⟩ :=
    Run.nothing_of_cancelled ch.processor.catalog ch.processor.config Tokens.root
      (fun _ => ch.processor.payload.unstamped) (l.laterActs ch)
  -- a run started below a cancelled token is one that is cancelled before all else
  have hsame : newborn ch true = (Trace.start ch.processor.catalog ch.processor.config
      Tokens.root).step ch.processor.payload.unstamped .cancel := rfl
  rw [Trace.after_cons, ← hsame] at hcounted hemitted htaken hrecords hbuffer
  rw [← hanonymous] at hcounted hemitted htaken hbuffer
  refine ⟨hcounted, hemitted, htaken, List.map_eq_nil_iff.mp hbuffer, ?_⟩
  rw [Trace.taken_after, ← hreplies] at hrecords
  intro x hx
  have hnone := List.flatMap_eq_nil_iff.mp (List.append_eq_nil_iff.mp hrecords).2 x.unstamped
    (List.mem_map_of_mem hx)
  rw [Reply.records_unstamped] at hnone
  exact List.map_eq_nil_iff.mp hnone

end Life

/-- **Runs are isolated from each other.**

* The lineage of a run's token is the token with all its ancestors, and the token is cancelled
  exactly if one of these has been, before or after the start of the run.
* A run that is started below a cancelled token counts, sends and delivers nothing.
* Two lives that have the run's own part in common, in which the producers are at rest whenever
  anything is done but to let them go on, give the run the same replies, and leave it the same when
  they come to rest.  Only stamps and the numbers of tokens may differ. -/
theorem runs_are_isolated (c : Catalog) (config : Config) {payload : Payload α}
    (hpure : payload.IsPure) (metrics : Metrics) :
    let ch := Chronicle.start c config payload metrics
    (∀ l : Life, ch.Knows l.deeds →
      ∃ r, l.run ch = some r ∧
        (∀ u, Tokens.Under (ch.parents l.deeds) r.token u
          ↔ u = r.token ∨ Tokens.Under (ch.parents l.deeds) l.parent u) ∧
        (∀ u, u ∈ l.lineage ch ↔ Tokens.Under (ch.parents l.deeds) r.token u) ∧
        ((ch.after l.deeds).processor.isCancelled r = true
          ↔ ∃ u ∈ ch.cancels l.deeds, Tokens.Under (ch.parents l.deeds) r.token u) ∧
        ((ch.after l.before).processor.tokens.isCancelled l.parent = true →
          r.counted = 0 ∧ r.emitted = 0 ∧ r.taken = 0 ∧ r.buffer = [] ∧
            ∀ x ∈ l.replies ch, x.records = [])) ∧
    ∀ l l' : Life, ch.Knows l.deeds → ch.Knows l'.deeds → ch.Orderly l.deeds →
      ch.Orderly l'.deeds → l.own ch = l'.own ch →
        (l.replies ch).map (·.unstamped) = (l'.replies ch).map (·.unstamped) ∧
        ((ch.after l.deeds).processor.AtRest → (ch.after l'.deeds).processor.AtRest →
          (l.run ch).map (·.anonymous) = (l'.run ch).map (·.anonymous)) := by
  intro ch
  have hpure : ch.processor.payload.IsPure := hpure
  constructor
  · intro l hknows
    obtain ⟨hechoes, -⟩ := Life.echoes_deeds hpure l
    obtain ⟨r, hr, htoken, -⟩ := hechoes.run_eq
    have hgrown := Chronicle.grown_after hpure rfl hknows
    obtain ⟨k, hk, hparent⟩ := Life.parents_token hpure rfl hknows
    refine ⟨r, hr, ?_, ?_, ?_, Life.nothing_of_cancelled_parent hpure l hr⟩
    · intro u
      rw [htoken, hk]
      exact Tokens.under_succ_iff hparent
    · intro u
      rw [htoken, ← hechoes.lineage_eq]
      exact hgrown.mem_lineage_iff _ hechoes.token_lt u
    · rw [htoken, Processor.isCancelled, htoken]
      exact hgrown.isCancelled_iff _ hechoes.token_lt
  · intro l l' hknows hknows' horderly horderly' hown
    obtain ⟨hreplies, hrun⟩ := Life.replies_eq_alone hpure horderly
    obtain ⟨hreplies', hrun'⟩ := Life.replies_eq_alone hpure horderly'
    -- both runs are started below a cancelled token, or neither is
    have hmark : (ch.after l.before).processor.tokens.isCancelled l.parent
        = (ch.after l'.before).processor.tokens.isCancelled l'.parent := by
      rw [Bool.eq_iff_iff, Life.isCancelled_parent_iff hpure rfl hknows,
        Life.isCancelled_parent_iff hpure rfl hknows', hown]
    constructor
    · rw [hreplies, hreplies', hmark, hown]
    · intro hrest hrest'
      rw [hrun hrest, hrun' hrest', hmark, hown]

theorem Payload.isPure_subcategory : Payload.subcategory.IsPure := ⟨fun _ _ => rfl, fun _ => rfl⟩

/-- A run by itself: a record is taken, and its token is cancelled before the next. -/
def Life.single : Life where
  before := []
  parent := Tokens.root
  later := List.replicate 9 (.step 0) ++ List.replicate 3 (.serve 0 .ask)
    ++ List.replicate 9 (.step 0) ++ [.cancel 1, .serve 0 .ask]

/-- The same beside another run, which is started before and is cancelled and dropped meanwhile;
here the token cancelled is the one above the run's own. -/
def Life.crowded : Life where
  before := [.child Tokens.root, .start Tokens.root] ++ List.replicate 9 (.step 0)
    ++ [.serve 0 .tryReceive] ++ List.replicate 9 (.step 0)
  parent := 1
  later := List.replicate 9 (.step 1) ++ List.replicate 2 (.serve 1 .ask) ++ [.cancel 2]
    ++ [.step 0, .serve 1 .ask] ++ List.replicate 9 (.step 1)
    ++ [.serve 0 .drop, .cancel 1, .serve 1 .ask]

theorem runs_are_isolated_twoFaces :
    let ch := Chronicle.start Catalog.twoFaces { batchSize := 0 } Payload.subcategory {}
    Payload.subcategory.IsPure ∧ ch.Knows Life.single.deeds ∧ ch.Knows Life.crowded.deeds ∧
      ch.Orderly Life.single.deeds ∧ ch.Orderly Life.crowded.deeds ∧
      Life.single.own ch = Life.crowded.own ch ∧
      (Life.single.replies ch).map (·.unstamped) = (Life.crowded.replies ch).map (·.unstamped) := by
  intro ch
  have hknows : ch.Knows Life.single.deeds := by decide
  have hknows' : ch.Knows Life.crowded.deeds := by decide
  have horderly : ch.Orderly Life.single.deeds := by decide
  have horderly' : ch.Orderly Life.crowded.deeds := by decide
  have hown : Life.single.own ch = Life.crowded.own ch := by decide
  obtain ⟨-, hsame⟩ := runs_are_isolated Catalog.twoFaces { batchSize := 0 }
    Payload.isPure_subcategory {}
  obtain ⟨hreplies, -⟩ := hsame Life.single Life.crowded hknows hknows' horderly horderly' hown
  exact ⟨Payload.isPure_subcategory, hknows, hknows', horderly, horderly', hown, hreplies⟩

end EmojiCatalog
