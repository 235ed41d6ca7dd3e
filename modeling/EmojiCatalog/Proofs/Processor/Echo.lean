import EmojiCatalog.Proofs.Processor.History
import EmojiCatalog.Proofs.Run.Anonymous
import EmojiCatalog.Proofs.Run.Rest
/-!
One run's own part of a history.

Of all that is done with a processor only four things reach a run: the steps of its own producer,
the requests of its own consumer, and the cancellations of its token and of the tokens above it,
which look alike to it.  `Deed.onRun` takes these out of a deed, and `Deed.onTokens` takes out what
the deed does to the tree of tokens.

When the payload function makes the same of an entry in every call, a run in the middle of others
goes through exactly the history of its own part, up to stamps and the number of its token
(`Echoes`).  In contrast to `Mirrors` that history is not found after the fact, it is known from the
deeds alone.
-/

namespace EmojiCatalog

open Run (Trace Act Moves Reply)

variable {α : Type}

/-! ### What a deed does to tokens and to a run -/

/-- What a deed does to the tree of tokens. -/
def Deed.onTokens (metrics : Metrics) : Deed → Option Tokens.Act
  | .start parent | .child parent => some (.child parent)
  | .cancel t => some (.cancel t)
  | .readStats _ => if metrics.cancelsRoot then some (.cancel Tokens.root) else none
  | .step _ | .serve _ _ | .search _ | .runPlan _ _ _ _ => none

/-- What an act on the tree of tokens does to a run whose token has the given lineage. -/
def Tokens.Act.onRun (lineage : List Token) : Tokens.Act → Option Run.Act
  | .child _ => none
  | .cancel t => if t ∈ lineage then some .cancel else none

/-- What a deed does to the run of a number, whose token has the given lineage. -/
def Deed.onRun (metrics : Metrics) (i : Nat) (lineage : List Token) : Deed → Option Act
  | .step j => if j = i then some .produce else none
  | .serve j q => if j = i then some (.serve q) else none
  | d => (d.onTokens metrics).bind (·.onRun lineage)

/-- The payload function makes the same of an entry in every call and does nothing else; only the
stamp may differ. -/
structure Payload.IsPure (payload : Payload α) : Prop where
  make_eq : ∀ n e, payload.make n e = payload.make 0 e
  cancels_eq : ∀ n, payload.cancels n = false

/-- What a payload function makes of entries, up to stamps. -/
def Payload.unstamped (payload : Payload α) (e : Entry) : α × Stamp := (payload.make 0 e, default)

namespace Chronicle

/-- The reply to a deed, if it is a request to the run of the given number. -/
def reply (ch : Chronicle α) (i : Nat) : Deed → List (Reply α)
  | .serve j q => if j = i then [(ch.processor.serve j q).1] else []
  | _ => []

/-- The replies of a run to all requests among some deeds. -/
def replies (ch : Chronicle α) (i : Nat) : List Deed → List (Reply α)
  | [] => []
  | d :: deeds => ch.reply i d ++ (ch.act d).replies i deeds

theorem after_cons (ch : Chronicle α) (d : Deed) (deeds : List Deed) :
    ch.after (d :: deeds) = (ch.act d).after deeds := rfl

theorem after_append (ch : Chronicle α) (deeds later : List Deed) :
    ch.after (deeds ++ later) = (ch.after deeds).after later :=
  List.foldl_append

end Chronicle

/-! ### Settings and tokens -/

namespace Processor

variable {p q : Processor α} {i j : Nat}

theorem settings_of_stepRun (h : p.stepRun j = some q) : q.settings = p.settings := by
  obtain ⟨-, -, -, -, -, hsettings, -⟩ := exists_of_stepRun h
  exact hsettings

theorem settings_serve (p : Processor α) (i : Nat) (request : Run.Request) :
    (p.serve i request).2.settings = p.settings := by
  unfold serve withRun
  cases p.runs[i]? <;> rfl

theorem tokens_serve (p : Processor α) (i : Nat) (request : Run.Request) :
    (p.serve i request).2.tokens = p.tokens := by
  unfold serve withRun
  cases p.runs[i]? <;> rfl

end Processor

namespace Chronicle

variable {ch : Chronicle α} {d : Deed} {deeds : List Deed}

theorem settings_act (ch : Chronicle α) (d : Deed) :
    (ch.act d).processor.settings = ch.processor.settings := by
  cases d with
  | step j =>
    rw [act]
    cases hq : ch.processor.stepRun j with
    | none => rfl
    | some q => exact Processor.settings_of_stepRun hq
  | serve j q => exact Processor.settings_serve ch.processor j q
  | readStats now =>
    show (if ch.processor.metrics.cancelsRoot then ch.processor.cancel Tokens.root
      else ch.processor).settings = _
    split <;> rfl
  | _ => rfl

theorem settings_after (ch : Chronicle α) (deeds : List Deed) :
    (ch.after deeds).processor.settings = ch.processor.settings := by
  induction deeds generalizing ch with
  | nil => rfl
  | cons d deeds ih => rw [after_cons, ih, settings_act]

theorem payload_act (ch : Chronicle α) (d : Deed) :
    (ch.act d).processor.payload = ch.processor.payload :=
  congrArg (·.2.2.1) (settings_act ch d)

theorem metrics_act (ch : Chronicle α) (d : Deed) :
    (ch.act d).processor.metrics = ch.processor.metrics :=
  congrArg (·.2.2.2) (settings_act ch d)

/-- A deed does to the tree of tokens what `onTokens` says. -/
theorem tokens_act (hpure : ch.processor.payload.IsPure) (d : Deed) :
    (ch.act d).processor.tokens
      = (d.onTokens ch.processor.metrics).elim ch.processor.tokens ch.processor.tokens.act := by
  cases d with
  | step j =>
    rw [act]
    cases hq : ch.processor.stepRun j with
    | none => rfl
    | some q => exact Processor.tokens_of_stepRun (hpure.cancels_eq _) hq
  | serve j q => exact Processor.tokens_serve ch.processor j q
  | readStats now =>
    show (if ch.processor.metrics.cancelsRoot then ch.processor.cancel Tokens.root
      else ch.processor).tokens = _
    rw [Deed.onTokens]
    split <;> rfl
  | _ => rfl

/-- What deeds do to the tree of tokens. -/
def tokenActs (ch : Chronicle α) (deeds : List Deed) : List Tokens.Act :=
  deeds.filterMap (·.onTokens ch.processor.metrics)

theorem tokens_after (hpure : ch.processor.payload.IsPure) (deeds : List Deed) :
    (ch.after deeds).processor.tokens = ch.processor.tokens.after (ch.tokenActs deeds) := by
  induction deeds generalizing ch with
  | nil => rfl
  | cons d deeds ih =>
    rw [after_cons, ih (payload_act ch d ▸ hpure), tokens_act hpure, tokenActs, tokenActs,
      metrics_act, List.filterMap_cons]
    cases d.onTokens ch.processor.metrics <;> rfl

end Chronicle

/-! ### A run goes through its own part -/

namespace Processor

variable {p q : Processor α} {i : Nat} {token : Token} {lineage : List Token} {t : Trace α}
variable {make : Entry → α × Stamp}

/-- Up to stamps and the number of its token, the run of the given number stands where the history
stands; `lineage` is that of its token. -/
structure Echoes (p : Processor α) (i : Nat) (token : Token) (lineage : List Token)
    (t : Trace α) : Prop where
  run_eq : ∃ r, p.runs[i]? = some r ∧ r.token = token ∧ r.anonymous = t.run
  cancelled_eq : t.cancelled = p.tokens.isCancelled token
  token_lt : token < p.tokens.nodes.length
  lineage_eq : p.tokens.lineage token = lineage

/-- The run itself, with the mark of its token. -/
theorem Echoes.exists_run (h : Echoes p i token lineage t) :
    ∃ r, p.runs[i]? = some r ∧ r.token = token ∧ r.anonymous = t.run ∧
      p.isCancelled r = t.cancelled := by
  obtain ⟨r, hr, htoken, hanonymous⟩ := h.run_eq
  refine ⟨r, hr, htoken, hanonymous, ?_⟩
  rw [isCancelled, htoken]
  exact h.cancelled_eq.symm

/-- What happens elsewhere leaves the run where it stands. -/
theorem Echoes.frame (h : Echoes p i token lineage t) (hruns : q.runs[i]? = p.runs[i]?)
    (htokens : q.tokens = p.tokens) : Echoes q i token lineage t := by
  obtain ⟨hrun, hmark, hlt, hlineage⟩ := h
  rw [← hruns] at hrun
  rw [← htokens] at hmark hlt hlineage
  exact ⟨hrun, hmark, hlt, hlineage⟩

/-- An act on the tree of tokens reaches the run only if it cancels one of its lineage. -/
theorem Echoes.onTokens (h : Echoes p i token lineage t) (hruns : q.runs[i]? = p.runs[i]?)
    {a : Tokens.Act} (htokens : q.tokens = p.tokens.act a) :
    Echoes q i token lineage ((a.onRun lineage).elim t (t.step make)) := by
  have hrun := h.run_eq
  rw [← hruns] at hrun
  cases a with
  | child parent =>
    have htokens : q.tokens = p.tokens.child parent := htokens
    refine ⟨hrun, ?_, ?_, ?_⟩
    · rw [htokens, Tokens.isCancelled_child_of_lt h.token_lt]
      exact h.cancelled_eq
    · rw [htokens, Tokens.length_child]
      exact Nat.lt_succ_of_lt h.token_lt
    · rw [htokens, Tokens.lineage_child_of_lt h.token_lt]
      exact h.lineage_eq
  | cancel u =>
    have htokens : q.tokens = p.tokens.cancel u := htokens
    have hmark : q.tokens.isCancelled token = (t.cancelled || decide (u ∈ lineage)) := by
      rw [htokens, Tokens.isCancelled_cancel_eq, h.cancelled_eq, h.lineage_eq]
    have hlt : token < q.tokens.nodes.length := by
      rw [htokens, Tokens.length_cancel]
      exact h.token_lt
    have hlineage : q.tokens.lineage token = lineage := by
      rw [htokens, Tokens.lineage_cancel]
      exact h.lineage_eq
    rw [Tokens.Act.onRun]
    split
    next hu =>
      refine ⟨hrun, ?_, hlt, hlineage⟩
      rw [hmark, decide_eq_true hu, Bool.or_true]
      rfl
    next hu =>
      refine ⟨hrun, ?_, hlt, hlineage⟩
      rw [hmark, decide_eq_false hu, Bool.or_false]
      rfl

theorem fst_makeNow (hpure : p.payload.IsPure) (e : Entry) :
    (p.makeNow e).1 = p.payload.make 0 e :=
  hpure.make_eq p.calls e

/-- A step of the run's own producer is one in the history. -/
theorem Echoes.stepRun (h : Echoes p i token lineage t) (hpure : p.payload.IsPure) :
    Echoes ((p.stepRun i).getD p) i token lineage (t.step p.payload.unstamped .produce) := by
  obtain ⟨r, hr, htoken, hanonymous, hmark⟩ := h.exists_run
  have hproduce : t.run.produce t.cancelled p.payload.unstamped
      = (r.produce (p.isCancelled r) p.makeNow).map (·.anonymous) := by
    rw [← hanonymous, hmark]
    exact Run.produce_anonymous (fst_makeNow hpure)
  -- the history has a step exactly if the run has one
  cases hq : p.stepRun i with
  | none =>
    rw [stepRun_eq hr, Option.map_eq_none_iff] at hq
    rw [hq, Option.map_none] at hproduce
    rw [Trace.step, hproduce]
    exact h
  | some q =>
    obtain ⟨r', m, hr', hm, hruns, -⟩ := exists_of_stepRun hq
    obtain rfl : r = r' := Option.some.inj (hr.symm.trans hr')
    rw [Run.produce_eq_some_iff.mpr hm, Option.map_some] at hproduce
    rw [Trace.step, hproduce]
    have htokens := tokens_of_stepRun (hpure.cancels_eq _) hq
    have hlt : i < p.runs.length := (List.getElem?_eq_some_iff.mp hr).1
    have hset : q.runs[i]? = some m.run := by rw [hruns, List.getElem?_set_self hlt]
    constructor
    case run_eq => exact ⟨m.run, hset, (congrArg (·.1) hm.settings_eq).trans htoken, rfl⟩
    case cancelled_eq => exact h.cancelled_eq.trans (congrArg (·.isCancelled token) htokens.symm)
    case token_lt => exact htokens.symm ▸ h.token_lt
    case lineage_eq => exact htokens.symm ▸ h.lineage_eq

/-- A request of the run's own consumer is one in the history, and gets the same reply. -/
theorem Echoes.serve (h : Echoes p i token lineage t) (make : Entry → α × Stamp)
    (request : Run.Request) :
    Echoes (p.serve i request).2 i token lineage (t.step make (.serve request)) ∧
      (p.serve i request).1.unstamped = (t.run.serve t.cancelled request).1 := by
  obtain ⟨r, hr, htoken, hanonymous, hmark⟩ := h.exists_run
  have hserve : p.serve i request = ((r.serve t.cancelled request).1,
      { p with runs := p.runs.set i (r.serve t.cancelled request).2 }) := by
    rw [Processor.serve, withRun, hr, ← hmark]
    rfl
  have hsame := Run.serve_anonymous t.cancelled r request
  rw [hanonymous] at hsame
  have hlt : i < p.runs.length := (List.getElem?_eq_some_iff.mp hr).1
  rw [hserve, Trace.step_serve, hsame]
  refine ⟨⟨⟨_, List.getElem?_set_self hlt, ?_, rfl⟩, ?_, h.token_lt, h.lineage_eq⟩, rfl⟩
  · exact (congrArg (·.1) (Run.settings_serve t.cancelled r request)).trans htoken
  · exact h.cancelled_eq

end Processor

namespace Chronicle

variable {ch : Chronicle α} {i : Nat} {token : Token} {lineage : List Token} {t : Trace α}

/-- The acts on a run among some deeds. -/
def runActs (ch : Chronicle α) (i : Nat) (lineage : List Token) (deeds : List Deed) : List Act :=
  deeds.filterMap (·.onRun ch.processor.metrics i lineage)

theorem runActs_act (ch : Chronicle α) (d : Deed) (i : Nat) (lineage : List Token)
    (deeds : List Deed) : (ch.act d).runActs i lineage deeds = ch.runActs i lineage deeds := by
  rw [runActs, runActs, metrics_act]

theorem runActs_cons (ch : Chronicle α) (d : Deed) (i : Nat) (lineage : List Token)
    (deeds : List Deed) : ch.runActs i lineage (d :: deeds)
      = (d.onRun ch.processor.metrics i lineage).toList ++ ch.runActs i lineage deeds := by
  rw [runActs, List.filterMap_cons]
  cases d.onRun ch.processor.metrics i lineage <;> rfl

/-- A deed does to a run what `onRun` says, and nothing else. -/
theorem echoes_act (hpure : ch.processor.payload.IsPure)
    (h : ch.processor.Echoes i token lineage t) (d : Deed) :
    (ch.act d).processor.Echoes i token lineage
        ((d.onRun ch.processor.metrics i lineage).elim t
          (t.step ch.processor.payload.unstamped)) ∧
      (ch.reply i d).map (·.unstamped)
        = (d.onRun ch.processor.metrics i lineage).elim [] t.reply := by
  obtain ⟨r, hr, -⟩ := h.run_eq
  cases d with
  | start parent =>
    -- the new run gets a number of its own
    have hlt : i < ch.processor.runs.length := (List.getElem?_eq_some_iff.mp hr).1
    exact ⟨h.onTokens (List.getElem?_append_left hlt) (a := .child parent) rfl, rfl⟩
  | step j =>
    rw [act, Deed.onRun]
    by_cases hji : j = i
    · rw [if_pos hji, hji]
      exact ⟨h.stepRun hpure, rfl⟩
    · rw [if_neg hji]
      refine ⟨?_, rfl⟩
      cases hq : ch.processor.stepRun j with
      | none => exact h
      | some q =>
        obtain ⟨_, m, _, _, hruns, -⟩ := Processor.exists_of_stepRun hq
        refine h.frame ?_ (Processor.tokens_of_stepRun (hpure.cancels_eq _) hq)
        rw [Option.getD_some, hruns, List.getElem?_set_ne hji]
  | serve j q =>
    rw [act, Deed.onRun, reply]
    by_cases hji : j = i
    · rw [if_pos hji, if_pos hji, hji]
      obtain ⟨hserve, hreply⟩ := h.serve ch.processor.payload.unstamped q
      refine ⟨hserve, ?_⟩
      rw [List.map_singleton, hreply]
      rfl
    · rw [if_neg hji, if_neg hji]
      refine ⟨h.frame ?_ (Processor.tokens_serve ch.processor j q), rfl⟩
      unfold Processor.serve Processor.withRun
      cases ch.processor.runs[j]? with
      | none => rfl
      | some r => exact List.getElem?_set_ne hji
  | child parent =>
    exact ⟨h.onTokens (q := (ch.act (.child parent)).processor) rfl (a := .child parent) rfl, rfl⟩
  | cancel u =>
    refine ⟨h.onTokens (q := ch.processor.cancel u) rfl (a := .cancel u) rfl, ?_⟩
    show [] = ((if u ∈ lineage then some Act.cancel else none).elim [] t.reply)
    split <;> rfl
  | readStats now =>
    have hstats : (ch.processor.stats now).2 = if ch.processor.metrics.cancelsRoot
        then ch.processor.cancel Tokens.root else ch.processor := rfl
    have honRun : (Deed.readStats now).onRun ch.processor.metrics i lineage
        = (if ch.processor.metrics.cancelsRoot then some (.cancel Tokens.root)
            else none : Option Tokens.Act).bind (·.onRun lineage) := rfl
    rw [act, hstats, honRun]
    split
    · refine ⟨h.onTokens (q := ch.processor.cancel Tokens.root) rfl (a := .cancel Tokens.root) rfl,
        ?_⟩
      show [] = ((if Tokens.root ∈ lineage then some Act.cancel else none).elim [] t.reply)
      split <;> rfl
    · exact ⟨h, rfl⟩
  | search q => exact ⟨h.frame rfl rfl, rfl⟩
  | runPlan plan workerCount queries cancelled => exact ⟨h.frame rfl rfl, rfl⟩

/-- **A run among others goes through its own part of the history**, and gets the same replies. -/
theorem echoes_after (hpure : ch.processor.payload.IsPure)
    (h : ch.processor.Echoes i token lineage t) (deeds : List Deed) :
    (ch.after deeds).processor.Echoes i token lineage
        (t.after (fun _ => ch.processor.payload.unstamped) (ch.runActs i lineage deeds)) ∧
      (ch.replies i deeds).map (·.unstamped)
        = t.replies ch.processor.payload.unstamped (ch.runActs i lineage deeds) := by
  induction deeds generalizing ch t with
  | nil => exact ⟨h, rfl⟩
  | cons d deeds ih =>
    have hpayload := payload_act ch d
    obtain ⟨hact, hreply⟩ := echoes_act hpure h d
    obtain ⟨hafter, hreplies⟩ := ih (hpayload ▸ hpure) hact
    rw [hpayload, runActs_act] at hafter hreplies
    rw [after_cons, replies, List.map_append, hreply, hreplies, runActs_cons]
    cases hd : d.onRun ch.processor.metrics i lineage with
    | none =>
      rw [hd] at hafter
      exact ⟨hafter, rfl⟩
    | some a =>
      rw [hd] at hafter
      exact ⟨hafter, rfl⟩

end Chronicle

end EmojiCatalog
