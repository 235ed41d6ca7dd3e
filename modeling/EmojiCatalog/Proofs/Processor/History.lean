import EmojiCatalog.Proofs.Processor.Mirror
import EmojiCatalog.Proofs.Run.Conservation
import EmojiCatalog.Proofs.Tally
/-!
Histories of a processor.

A `Deed` is one thing that can be done with a processor: start a run, let a producer make a step,
put a consumer's request to a run, make or cancel a token, read the statistics, search, or run a
pool.  The lists of deeds are the interleavings of everything that goes on in it.  A `Chronicle` is
a processor together with the records that consumers have got from its runs.

`Accounts` is what connects the whole with its parts: every run of the processor has a history of
its own, the categories counted in these histories are what the statistics have counted, and the
records taken in them are those that consumers have got.  Deeds preserve it, each because it is an
act in the history of at most one run and leaves the counts and records of all others alone.
-/

namespace EmojiCatalog

open Run (Trace Act Moves)

variable {α : Type}

/-! ### Deeds -/

/-- What can be done with a processor. -/
inductive Deed where
  /-- Starts a run whose token is below the given one. -/
  | start (parent : Token)
  /-- The producer of a run makes a step, if it has one to make. -/
  | step (i : Nat)
  /-- The consumer of a run puts a request to it. -/
  | serve (i : Nat) (q : Run.Request)
  /-- Makes a token below the given one. -/
  | child (parent : Token)
  | cancel (t : Token)
  | readStats (now : Instant)
  | search (q : Query)
  | runPlan (plan : Plan) (workerCount queries : Nat) (cancelled : Bool)

namespace Processor

/-- Lets a run serve a request. -/
def serve (p : Processor α) (i : Nat) (q : Run.Request) : Run.Reply α × Processor α :=
  let out := p.withRun i fun cancelled r => (some (r.serve cancelled q).1, (r.serve cancelled q).2)
  (out.1.getD .nothing, out.2)

end Processor

/-- A processor with the records that consumers have got from its runs. -/
structure Chronicle (α : Type) where
  processor : Processor α
  delivered : List (Record α) := []

namespace Chronicle

/-- The chronicle after one deed. -/
def act (h : Chronicle α) : Deed → Chronicle α
  | .start parent => { h with processor := h.processor.startRun parent }
  | .step i => { h with processor := (h.processor.stepRun i).getD h.processor }
  | .serve i q =>
    { processor := (h.processor.serve i q).2
      delivered := h.delivered ++ (h.processor.serve i q).1.records }
  | .child parent =>
    { h with processor := { h.processor with tokens := h.processor.tokens.child parent } }
  | .cancel t => { h with processor := h.processor.cancel t }
  | .readStats now => { h with processor := (h.processor.stats now).2 }
  | .search q => { h with processor := (h.processor.search q).2 }
  | .runPlan plan workerCount queries cancelled =>
    { h with processor := (h.processor.runPlan plan workerCount queries cancelled).2 }

/-- The chronicle after some deeds. -/
def after (h : Chronicle α) (deeds : List Deed) : Chronicle α :=
  deeds.foldl act h

end Chronicle

/-! ### Replacing one of several -/

theorem flatMap_set_perm {β γ : Type} {f : β → List γ} {l : List β} {j : Nat} {x y : β}
    {zs : List γ} (hx : l[j]? = some x) (hy : f y = f x ++ zs) :
    ((l.set j y).flatMap f).Perm (l.flatMap f ++ zs) := by
  induction l generalizing j with
  | nil => cases hx
  | cons w l ih =>
    cases j with
    | zero =>
      cases hx
      rw [List.set_cons_zero, List.flatMap_cons, List.flatMap_cons, hy, List.append_assoc,
        List.append_assoc]
      exact List.Perm.append_left _ List.perm_append_comm
    | succ j =>
      rw [List.set_cons_succ, List.flatMap_cons, List.flatMap_cons, List.append_assoc]
      exact List.Perm.append_left _ (ih hx)

/-! ### The histories of the runs -/

/-- The trace stands after some history of a run over the catalog. -/
def Run.Trace.Reached (c : Catalog) (config : Config) (t : Trace α) : Prop :=
  ∃ token, Trace.Leads (fun _ => True) (fun _ => True) (Trace.start c config token) t

/-- The runs of a processor have these histories. -/
structure Processor.Follows (c : Catalog) (config : Config) (p : Processor α)
    (ts : List (Trace α)) : Prop where
  runs_eq : p.runs = ts.map (·.run)
  marks_eq : ∀ t ∈ ts, t.cancelled = p.isCancelled t.run
  reached : ∀ t ∈ ts, t.Reached c config

/-- The statistics and the records got are those of the histories of all runs. -/
structure Chronicle.Accounts (c : Catalog) (config : Config) (ch : Chronicle α)
    (ts : List (Trace α)) : Prop where
  catalog_eq : ch.processor.catalog = c
  config_eq : ch.processor.config = config
  follows : ch.processor.Follows c config ts
  tally_eq : ∃ names, ch.processor.tally = .ofNames names ∧ names.Perm (ts.flatMap (·.counts))
  delivered_perm : ch.delivered.Perm (ts.flatMap (·.taken))

/-! ### What deeds do to the histories -/

variable {c : Catalog} {config : Config} {ch : Chronicle α} {ts : List (Trace α)}
variable {p q : Processor α} {i : Nat} {t u : Trace α}

/-- The histories with the tokens cancelled that are cancelled in a processor. -/
def Processor.marked (q : Processor α) (ts : List (Trace α)) : List (Trace α) :=
  ts.map fun t => t.mark (q.isCancelled t.run)

theorem Run.Trace.Reached.step (h : t.Reached c config) (f : Entry → α × Stamp) (a : Act) :
    (t.step f a).Reached c config := by
  obtain ⟨token, hleads⟩ := h
  exact ⟨token, hleads.step trivial trivial⟩

theorem Run.Trace.reached_start (c : Catalog) (config : Config) (token : Token)
    (f : Entry → α × Stamp) : (Trace.start (α := α) c config token).Reached c config :=
  ⟨token, .refl (f := f) trivial _⟩

/-- Histories can catch up with the marks of all tokens. -/
theorem Processor.Follows.marked (hruns : q.runs = ts.map (·.run))
    (hmarks : ∀ t ∈ ts, t.cancelled = true → q.isCancelled t.run = true)
    (hreached : ∀ t ∈ ts, t.Reached c config) : q.Follows c config (q.marked ts) := by
  constructor
  · rw [hruns, Processor.marked, List.map_map]
    rfl
  · intro t' ht'
    obtain ⟨t, ht, rfl⟩ := List.mem_map.mp ht'
    exact Trace.cancelled_mark (hmarks t ht)
  · intro t' ht'
    obtain ⟨t, ht, rfl⟩ := List.mem_map.mp ht'
    obtain ⟨token, hleads⟩ := hreached t ht
    exact ⟨token, hleads.mark (f := q.makeNow) trivial trivial _⟩

theorem flatMap_counts_marked (q : Processor α) (ts : List (Trace α)) :
    (q.marked ts).flatMap (·.counts) = ts.flatMap (·.counts) := by
  rw [Processor.marked, List.flatMap_map]
  rfl

theorem flatMap_taken_marked (q : Processor α) (ts : List (Trace α)) :
    (q.marked ts).flatMap (·.taken) = ts.flatMap (·.taken) := by
  rw [Processor.marked, List.flatMap_map]
  rfl

namespace Chronicle

/-- A deed that changes no run, and at most cancels tokens. -/
theorem Accounts.keep (h : Accounts c config ch ts) (hcatalog : q.catalog = ch.processor.catalog)
    (hconfig : q.config = ch.processor.config) (hruns : q.runs = ch.processor.runs)
    (htally : q.tally = ch.processor.tally)
    (hmarks : ∀ r : Run α, ch.processor.isCancelled r = true → q.isCancelled r = true) :
    Accounts c config { ch with processor := q } (q.marked ts) := by
  constructor
  case catalog_eq => exact hcatalog.trans h.catalog_eq
  case config_eq => exact hconfig.trans h.config_eq
  case follows =>
    refine .marked (hruns.trans h.follows.runs_eq) ?_ h.follows.reached
    intro t ht hc
    exact hmarks t.run ((h.follows.marks_eq t ht).symm.trans hc)
  case tally_eq =>
    rw [flatMap_counts_marked, show q.tally = _ from htally]
    exact h.tally_eq
  case delivered_perm =>
    rw [flatMap_taken_marked]
    exact h.delivered_perm

/-- A deed that is an act in the history of one run. -/
theorem Accounts.replace {f : Entry → α × Stamp} {a : Act} {records : List (Record α)}
    {names : List String} (h : Accounts c config ch ts) (ht : ts[i]? = some t)
    (hcatalog : q.catalog = ch.processor.catalog) (hconfig : q.config = ch.processor.config)
    (hruns : q.runs = ch.processor.runs.set i (t.step f a).run)
    (htally : q.tally = ch.processor.tally.incrementAll names)
    (hmarks : ∀ r : Run α, ch.processor.isCancelled r = true → q.isCancelled r = true)
    (hcancelled : (t.step f a).cancelled = t.cancelled)
    (hcounts : (t.step f a).counts = t.counts ++ names)
    (htaken : (t.step f a).taken = t.taken ++ records) :
    Accounts c config ⟨q, ch.delivered ++ records⟩ (q.marked (ts.set i (t.step f a))) := by
  have hmem : t ∈ ts := List.mem_of_getElem? ht
  constructor
  case catalog_eq => exact hcatalog.trans h.catalog_eq
  case config_eq => exact hconfig.trans h.config_eq
  case follows =>
    apply Processor.Follows.marked
    · rw [hruns, h.follows.runs_eq, List.map_set]
    · intro t' ht' hc
      -- the token of the history that went on is still the one it was started with
      rcases List.mem_or_eq_of_mem_set ht' with ht' | rfl
      · exact hmarks t'.run ((h.follows.marks_eq t' ht').symm.trans hc)
      · rw [q.isCancelled_congr (Trace.settings_step f t a)]
        apply hmarks
        rw [← h.follows.marks_eq t hmem, ← hcancelled]
        exact hc
    · intro t' ht'
      rcases List.mem_or_eq_of_mem_set ht' with ht' | rfl
      · exact h.follows.reached t' ht'
      · exact (h.follows.reached t hmem).step f a
  case tally_eq =>
    obtain ⟨before, hbefore, hperm⟩ := h.tally_eq
    refine ⟨before ++ names, ?_, ?_⟩
    · rw [show q.tally = _ from htally, hbefore, Tally.ofNames, Tally.ofNames,
        Tally.incrementAll_append]
    · rw [flatMap_counts_marked]
      exact (hperm.append_right names).trans (flatMap_set_perm ht hcounts).symm
  case delivered_perm =>
    rw [flatMap_taken_marked]
    exact (h.delivered_perm.append_right records).trans (flatMap_set_perm ht htaken).symm

/-- Starting a run begins a history. -/
theorem Accounts.startRun (h : Accounts c config ch ts) (parent : Token) :
    ∃ ts', Accounts c config { ch with processor := ch.processor.startRun parent } ts' := by
  refine ⟨(ch.processor.startRun parent).marked
    (ts ++ [Trace.start c config ch.processor.tokens.fresh]), ?_⟩
  constructor
  case catalog_eq => exact h.catalog_eq
  case config_eq => exact h.config_eq
  case follows =>
    apply Processor.Follows.marked
    · show ch.processor.runs ++ [_] = _
      rw [List.map_append, ← h.follows.runs_eq, ← h.catalog_eq, ← h.config_eq]
      rfl
    · intro t ht hc
      -- the new history has no mark yet, whatever that of the token above it
      rcases List.mem_append.mp ht with ht | ht
      · exact Tokens.isCancelled_child ((h.follows.marks_eq t ht).symm.trans hc)
      · rw [List.mem_singleton.mp ht] at hc
        cases hc
    · intro t ht
      rcases List.mem_append.mp ht with ht | ht
      · exact h.follows.reached t ht
      · rw [List.mem_singleton.mp ht]
        exact Trace.reached_start c config _ ch.processor.makeNow
  -- nothing has been counted or taken yet in the new history
  case tally_eq =>
    rw [flatMap_counts_marked, List.flatMap_append]
    show ∃ names, ch.processor.tally = .ofNames names ∧ names.Perm (ts.flatMap (·.counts) ++ [])
    rw [List.append_nil]
    exact h.tally_eq
  case delivered_perm =>
    rw [flatMap_taken_marked, List.flatMap_append]
    show ch.delivered.Perm (ts.flatMap (·.taken) ++ [])
    rw [List.append_nil]
    exact h.delivered_perm

/-- A step of a producer is an act in the history of its run. -/
theorem Accounts.stepRun (h : Accounts c config ch ts) (hq : ch.processor.stepRun i = some q) :
    ∃ ts', Accounts c config { ch with processor := q } ts' := by
  obtain ⟨r, m, hr, hm, hruns, hsettings, htally, hmarks⟩ := Processor.exists_of_stepRun hq
  rw [h.follows.runs_eq, List.getElem?_map] at hr
  obtain ⟨t, ht, rfl⟩ := Option.map_eq_some_iff.mp hr
  have hmem : t ∈ ts := List.mem_of_getElem? ht
  have hmoved : t.step ch.processor.makeNow .produce = t.moved m := by
    rw [← h.follows.marks_eq t hmem] at hm
    rw [Trace.step, Run.produce_eq_some_iff.mpr hm]
  refine ⟨q.marked (ts.set i (t.step ch.processor.makeNow .produce)), ?_⟩
  rw [← List.append_nil ch.delivered]
  apply h.replace ht (congrArg (·.1) hsettings) (congrArg (·.2.1) hsettings) _ htally hmarks
  · rw [hmoved]
    rfl
  · rw [hmoved]
    rfl
  -- what a producer delivers is not taken before the consumer asks for it
  · rw [hmoved]
    exact (List.append_nil _).symm
  · rw [hmoved]
    exact hruns

/-- A request that a run serves is an act in its history. -/
theorem Accounts.serve (h : Accounts c config ch ts) (i : Nat) (request : Run.Request) :
    ∃ ts', Accounts c config (ch.act (.serve i request)) ts' := by
  cases hr : ch.processor.runs[i]? with
  | none =>
    refine ⟨ts, ?_⟩
    have hserve : ch.processor.serve i request = (.nothing, ch.processor) := by
      rw [Processor.serve, Processor.withRun, hr]
      rfl
    rw [act, hserve]
    show Accounts c config ⟨ch.processor, ch.delivered ++ []⟩ ts
    rw [List.append_nil]
    exact h
  | some r =>
    rw [h.follows.runs_eq, List.getElem?_map] at hr
    obtain ⟨t, ht, rfl⟩ := Option.map_eq_some_iff.mp hr
    have hmem : t ∈ ts := List.mem_of_getElem? ht
    have hserve : ch.processor.serve i request = ((t.run.serve t.cancelled request).1,
        { ch.processor with
          runs := ch.processor.runs.set i (t.run.serve t.cancelled request).2 }) := by
      rw [Processor.serve, Processor.withRun, h.follows.runs_eq, List.getElem?_map, ht,
        h.follows.marks_eq t hmem]
      rfl
    rw [act, hserve]
    -- requests count nothing
    have htally : ch.processor.tally = ch.processor.tally.incrementAll [] := rfl
    exact ⟨_, h.replace (f := ch.processor.makeNow) (a := .serve request) ht rfl rfl rfl htally
      (fun _ hmark => hmark) rfl (List.append_nil _).symm rfl⟩

/-- Every deed preserves that the whole accounts for its parts. -/
theorem Accounts.exists_act (h : Accounts c config ch ts) (d : Deed) :
    ∃ ts', Accounts c config (ch.act d) ts' := by
  cases d with
  | start parent => exact h.startRun parent
  | step i =>
    rw [act]
    cases hq : ch.processor.stepRun i with
    | none => exact ⟨ts, h⟩
    | some q => exact h.stepRun hq
  | serve i request => exact h.serve i request
  | child parent =>
    exact ⟨_, h.keep rfl rfl rfl rfl fun _ hmark => Tokens.isCancelled_child hmark⟩
  | cancel t =>
    exact ⟨_, h.keep rfl rfl rfl rfl fun _ hmark => Processor.isCancelled_cancel t hmark⟩
  | readStats now =>
    have hstats : (ch.processor.stats now).2 = if ch.processor.metrics.cancelsRoot
        then ch.processor.cancel Tokens.root else ch.processor := rfl
    rw [Chronicle.act, hstats]
    split
    · exact ⟨_, h.keep rfl rfl rfl rfl fun _ hmark => Processor.isCancelled_cancel _ hmark⟩
    · exact ⟨ts, h⟩
  | search q => exact ⟨_, h.keep rfl rfl rfl rfl fun _ hmark => hmark⟩
  | runPlan plan workerCount queries cancelled =>
    exact ⟨_, h.keep rfl rfl rfl rfl fun _ hmark => hmark⟩

theorem Accounts.after (h : Accounts c config ch ts) (deeds : List Deed) :
    ∃ ts', Accounts c config (ch.after deeds) ts' := by
  induction deeds generalizing ch ts with
  | nil => exact ⟨ts, h⟩
  | cons d deeds ih =>
    obtain ⟨ts', hact⟩ := h.exists_act d
    exact ih hact

/-- The chronicle of a new processor. -/
def start (c : Catalog) (config : Config) (payload : Payload α) (metrics : Metrics) :
    Chronicle α where
  processor := .ofCatalog c config payload metrics

theorem Accounts.start (c : Catalog) (config : Config) (payload : Payload α) (metrics : Metrics) :
    Accounts c config (Chronicle.start c config payload metrics) [] := by
  constructor
  case catalog_eq => rfl
  case config_eq => rfl
  case follows =>
    constructor
    · rfl
    · exact fun t ht => absurd ht List.not_mem_nil
    · exact fun t ht => absurd ht List.not_mem_nil
  case tally_eq => exact ⟨[], rfl, .refl []⟩
  case delivered_perm => exact .refl []

end Chronicle

end EmojiCatalog
