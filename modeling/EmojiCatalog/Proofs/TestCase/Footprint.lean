import EmojiCatalog.Proofs.TestCase.Verdict
/-!
What a test case does to the tokens, and what it notices of them.

Within a budget a run gets a token of its own, below that of the caller.  The tokens that were there
before are touched in one way only: the case itself cancels the root (`cancelsRoot`), and with it
all the others (`executeWithin_spares`).  What a case does to its own token, and what giving up its
run does, stays below the caller (`teardown_of_expired`).

Of the tokens a case notices which of the root and the caller's token are cancelled when it starts,
and nothing else.  The number of tokens, their order and the place of the caller among them make no
difference (`Tokens.SeenAlike.executeWithin`).
-/

namespace EmojiCatalog

/-! ### What a case cancels -/

section Cancelling

variable {σ : Type} {budget : Duration} {caller : Token} {tokens ts : Tokens} {c : Bool}

theorem Brief.leaves_spares (b : Brief σ) (h : ts.Spares c tokens) :
    ts.Spares (c || b.cancelsRoot) (b.leaves tokens) := by
  rw [leaves]
  cases b.cancelsRoot with
  | false =>
    rw [Bool.or_false]
    exact h
  | true =>
    rw [Bool.or_true]
    exact h.cancel_root

/-- Giving a run up cancels the token of the run, and no other that was there before. -/
theorem Ran.tokens_spares {r : Ran σ} (h : ts.Spares c r.scene.tokens)
    (hold : ts.nodes.length ≤ r.own) (hown : r.own < r.scene.tokens.nodes.length) :
    ts.Spares c r.tokens := by
  rw [Ran.tokens]
  split
  next => exact h.cancel_new hold hown
  next => exact h

/-- The token of a run that was given up is cancelled. -/
theorem Ran.isCancelled_of_expired {r : Ran σ} (hgrown : r.scene.tokens.IsGrown)
    (hown : r.own < r.scene.tokens.nodes.length) (h : r.how = .expired) :
    r.tokens.isCancelled r.own = true := by
  have hmem := hgrown.self_mem_lineage hown
  simp only [Ran.tokens, h, Tokens.isCancelled_cancel_eq, decide_eq_true hmem, Bool.or_true]

variable [TestCase σ] {case : σ}

/-- The tokens that the run of a case cancels itself. -/
def Ran.cancels (budget : Option Duration) (caller : Token) (tokens : Tokens) (case : σ) :
    List Handle :=
  let (own, tokens) := Progress.runToken budget caller tokens
  (TestCase.run case).cancels budget own { state := case, tokens := tokens }

/-- Under a budget the run of a case gets a new token.  All earlier ones are left alone, unless
setup or the run cancels the root. -/
theorem Ran.afterSetup_spares (htokens : tokens.IsGrown) (hcaller : caller < tokens.nodes.length)
    (budget : Duration) (case : σ) :
    let b := TestCase.setup (tokens.isCancelled Tokens.root) case
    let r := Ran.afterSetup (some budget) caller tokens case
    tokens.nodes.length ≤ r.own ∧ r.own < r.scene.tokens.nodes.length ∧
      tokens.Spares (b.cancelsRoot ||
        decide (.root ∈ Ran.cancels (some budget) caller (b.leaves tokens) b.state))
        r.scene.tokens := by
  intro b r
  have hsetup := b.leaves_spares (.refl htokens)
  have hcaller' := Nat.lt_of_lt_of_le hcaller hsetup.length_le
  have hown : (b.leaves tokens).fresh < ((b.leaves tokens).child caller).nodes.length := by
    rw [Tokens.length_child]
    exact Nat.lt_succ_self _
  have hrun := (TestCase.run b.state).perform_spares (some budget)
    (s := { state := b.state, tokens := (b.leaves tokens).child caller })
    (hsetup.child hcaller') hsetup.length_le hown
  exact ⟨hsetup.length_le, hrun.2, hrun.1⟩

/-- Whether a case itself cancels the root, in its setup, its run or its teardown. -/
def cancelsRoot (budget : Duration) (caller : Token) (tokens : Tokens) (case : σ) : Bool :=
  let b := TestCase.setup (tokens.isCancelled Tokens.root) case
  let r := Ran.afterSetup (some budget) caller tokens case
  b.cancelsRoot || b.fault.isNone &&
    (decide (.root ∈ Ran.cancels (some budget) caller (b.leaves tokens) b.state) ||
      r.teardown.cancelsRoot)

/-- Every execution within a budget comes to its end. -/
theorem exists_executeWithin (budget : Duration) (caller : Token) (tokens : Tokens) (case : σ) :
    ∃ e, executeWithin (some budget) caller tokens case = some e := by
  cases hfault : (TestCase.setup (tokens.isCancelled Tokens.root) case).fault with
  | some f => exact ⟨_, executeWithin_eq_some hfault⟩
  | none =>
    obtain ⟨fault, hends⟩ : ∃ fault,
        (Ran.afterSetup (some budget) caller tokens case).fault? (some budget) = some fault :=
      Option.ne_none_iff_exists'.mp fun hnone =>
        absurd (Ran.eq_none_of_never (Ran.fault?_under_eq_none_iff.mp hnone)) nofun
    exact ⟨_, (executeWithin_eq_map hfault).trans (by rw [hends]; rfl)⟩

/-- An execution within a budget changes nothing about the tokens that were there before, unless the
case itself cancels the root. -/
theorem executeWithin_spares {e : Execution σ} (htokens : tokens.IsGrown)
    (hcaller : caller < tokens.nodes.length)
    (he : executeWithin (some budget) caller tokens case = some e) :
    tokens.Spares (cancelsRoot budget caller tokens case) e.tokens := by
  let b := TestCase.setup (tokens.isCancelled Tokens.root) case
  let r := Ran.afterSetup (some budget) caller tokens case
  cases hfault : b.fault with
  | some f =>
    obtain rfl := Option.some.inj ((executeWithin_eq_some hfault).symm.trans he)
    have hcancels : cancelsRoot budget caller tokens case = b.cancelsRoot := by
      rw [cancelsRoot, hfault, Option.isNone_some, Bool.false_and, Bool.or_false]
    rw [hcancels]
    exact b.leaves_spares (.refl htokens)
  | none =>
    obtain ⟨fault, -, rfl⟩ :=
      Option.map_eq_some_iff.mp ((executeWithin_eq_map hfault).symm.trans he)
    obtain ⟨hold, hown, hscene⟩ := Ran.afterSetup_spares htokens hcaller budget case
    have hteardown := r.teardown.leaves_spares (Ran.tokens_spares hscene hold hown)
    rw [cancelsRoot, hfault, Option.isNone_none, Bool.true_and, ← Bool.or_assoc]
    exact hteardown

/-- A run that is given up leaves its own token cancelled for the teardown, and the tokens that were
there before as it has left them. -/
theorem teardown_of_expired (htokens : tokens.IsGrown) (hcaller : caller < tokens.nodes.length)
    (hfault : (TestCase.setup (tokens.isCancelled Tokens.root) case).fault = none) :
    let r := Ran.afterSetup (some budget) caller tokens case
    r.how = .expired →
      r.tokens.isCancelled r.own = true ∧
      (∀ t < tokens.nodes.length, r.tokens.isCancelled t = r.scene.tokens.isCancelled t) ∧
      ∃ e, executeWithin (some budget) caller tokens case = some e ∧
        e.report.fault = some (.timedOut budget) ∧
        e.case = (TestCase.teardown (r.tokens.isCancelled Tokens.root) true
          r.scene.state).state := by
  intro r hexpired
  obtain ⟨hold, hown, hscene⟩ := Ran.afterSetup_spares htokens hcaller budget case
  have hafter := Ran.tokens_spares hscene hold hown
  have hcancelled : r.tokens.isCancelled r.own = true :=
    Ran.isCancelled_of_expired hscene.isGrown hown hexpired
  refine ⟨hcancelled, fun t ht => ?_,
    .afterRun tokens case r (some (.timedOut budget)), ?_, rfl, ?_⟩
  · exact (hafter.isCancelled_eq t ht).trans (hscene.isCancelled_eq t ht).symm
  · have hends : r.fault? (some budget) = some (some (.timedOut budget)) :=
      Ran.fault?_of_expired hexpired
    exact (executeWithin_eq_map hfault).trans (congrArg (Option.map _) hends)
  · show r.teardown.state = _
    rw [Ran.teardown, hcancelled]

end Cancelling

/-! ### What a case notices -/

/-- Through the handles of a run that has just got its token, all trees have the same shape. -/
theorem Tokens.IsGrown.mem_lineage_child_iff {ts : Tokens} {caller : Token} (h : ts.IsGrown)
    (hcaller : caller < ts.nodes.length) (g k : Handle) :
    Activity.tokenOf ts.fresh g ∈ (ts.child caller).lineage (Activity.tokenOf ts.fresh k) ↔
      g = .root ∨ k = .own := by
  cases k with
  | own =>
    rw [Activity.tokenOf, Tokens.lineage_child_fresh]
    refine iff_of_true ?_ (.inr rfl)
    cases g with
    | own => exact List.mem_cons_self
    | root => exact List.mem_cons_of_mem _ (h.root_mem_lineage hcaller)
  | root =>
    rw [Activity.tokenOf, Tokens.lineage_child_of_lt h.root_lt, h.mem_lineage_root_iff]
    cases g with
    | own => exact iff_of_false (Nat.ne_of_gt h.root_lt) (by decide)
    | root => exact iff_of_true rfl (.inl rfl)

/-- Two callers with trees of which they see the same. -/
structure Tokens.SeenAlike (caller caller' : Token) (ts ts' : Tokens) : Prop where
  isGrown : ts.IsGrown
  isGrown' : ts'.IsGrown
  lt : caller < ts.nodes.length
  lt' : caller' < ts'.nodes.length
  root_eq : ts.isCancelled root = ts'.isCancelled root
  caller_eq : ts.isCancelled caller = ts'.isCancelled caller'

namespace Tokens.SeenAlike

variable {caller caller' : Token} {ts ts' : Tokens}

theorem leaves {σ : Type} (h : ts.SeenAlike caller caller' ts') (b : Brief σ) :
    (b.leaves ts).SeenAlike caller caller' (b.leaves ts') := by
  have hspares := b.leaves_spares (.refl h.isGrown)
  have hspares' := b.leaves_spares (.refl h.isGrown')
  constructor
  case isGrown => exact hspares.isGrown
  case isGrown' => exact hspares'.isGrown
  case lt => exact Nat.lt_of_lt_of_le h.lt hspares.length_le
  case lt' => exact Nat.lt_of_lt_of_le h.lt' hspares'.length_le
  case root_eq =>
    rw [hspares.isCancelled_eq _ h.isGrown.root_lt, hspares'.isCancelled_eq _ h.isGrown'.root_lt,
      h.root_eq]
  case caller_eq =>
    rw [hspares.isCancelled_eq _ h.lt, hspares'.isCancelled_eq _ h.lt', h.caller_eq]

theorem child (h : ts.SeenAlike caller caller' ts') :
    (ts.child caller).Alike ts.fresh ts'.fresh (ts'.child caller') where
  isCancelled_eq k := by
    cases k with
    | own =>
      rw [Activity.tokenOf, Activity.tokenOf, isCancelled_child_fresh, isCancelled_child_fresh,
        h.caller_eq]
    | root =>
      rw [Activity.tokenOf, Activity.tokenOf, isCancelled_child_of_lt h.isGrown.root_lt,
        isCancelled_child_of_lt h.isGrown'.root_lt, h.root_eq]
  mem_lineage_iff g k := by
    rw [h.isGrown.mem_lineage_child_iff h.lt, h.isGrown'.mem_lineage_child_iff h.lt']

end Tokens.SeenAlike

/-- What can be told from an execution apart from the tokens. -/
def Execution.account {σ : Type} (e : Execution σ) : Report × σ × List Mark × List Log.Event :=
  (e.report, e.case, e.trace, e.events)

section Noticing

variable {σ : Type} {caller caller' : Token} {ts ts' : Tokens}

theorem Ran.tokens_alike {r r' : Ran σ} (hhow : r.how = r'.how)
    (h : r.scene.tokens.Alike r.own r'.own r'.scene.tokens) :
    r.tokens.Alike r.own r'.own r'.tokens := by
  rw [Ran.tokens, Ran.tokens, hhow]
  split
  next => exact h.cancel .own
  next => exact h

/-- What setup or teardown does to the tokens can be told of no more than what was seen before. -/
theorem Brief.leaves_alike (b : Brief σ) {own own' : Token} (h : ts.Alike own own' ts') :
    (b.leaves ts).Alike own own' (b.leaves ts') := by
  rw [leaves, leaves]
  split
  next => exact h.cancel .root
  next => exact h

variable [TestCase σ]

/-- Callers that see the same get the same run. -/
theorem Tokens.SeenAlike.under (h : ts.SeenAlike caller caller' ts') (budget : Duration)
    (case : σ) :
    let r := Ran.under (some budget) caller ts case
    let r' := Ran.under (some budget) caller' ts' case
    r.how = r'.how ∧
      Ran.cancels (some budget) caller ts case = Ran.cancels (some budget) caller' ts' case ∧
      r.scene.Alike Eq r.own r'.own r'.scene :=
  (Activity.Alike.refl _).perform ⟨rfl, h.child, rfl, rfl⟩

/-- After the same setup they get the same run. -/
theorem Tokens.SeenAlike.afterSetup (h : ts.SeenAlike caller caller' ts') (budget : Duration)
    (case : σ) :
    let b := TestCase.setup (ts.isCancelled Tokens.root) case
    let r := Ran.afterSetup (some budget) caller ts case
    let r' := Ran.afterSetup (some budget) caller' ts' case
    r.how = r'.how ∧
      Ran.cancels (some budget) caller (b.leaves ts) b.state
        = Ran.cancels (some budget) caller' (b.leaves ts') b.state ∧
      r.scene.Alike Eq r.own r'.own r'.scene := by
  intro b r r'
  have hr' : r' = Ran.under (some budget) caller' (b.leaves ts') b.state := by
    simp only [r', Ran.afterSetup, ← h.root_eq, b]
  rw [hr']
  exact (h.leaves b).under budget b.state

/-- After the same run they get the same teardown. -/
theorem Ran.teardown_alike {r r' : Ran σ} (hhow : r.how = r'.how)
    (h : r.scene.Alike Eq r.own r'.own r'.scene) : r.teardown = r'.teardown := by
  have htokens := Ran.tokens_alike hhow h.tokens
  have hroot : r.tokens.isCancelled Tokens.root = r'.tokens.isCancelled Tokens.root :=
    htokens.isCancelled_eq .root
  have hown : r.tokens.isCancelled r.own = r'.tokens.isCancelled r'.own :=
    htokens.isCancelled_eq .own
  rw [teardown, teardown, h.state, hroot, hown]

theorem Execution.account_unready (h : ts.SeenAlike caller caller' ts') (case : σ) (f : CaseFault) :
    (Execution.unready ts case f).account = (Execution.unready ts' case f).account := by
  have hleft := (h.leaves (TestCase.setup (ts.isCancelled Tokens.root) case)).root_eq
  simp only [account, unready, openingEvents, ← h.root_eq, hleft]

theorem Execution.account_afterRun {r r' : Ran σ} (h : ts.SeenAlike caller caller' ts')
    (hhow : r.how = r'.how) (hscenes : r.scene.Alike Eq r.own r'.own r'.scene) (case : σ)
    (fault : Option CaseFault) :
    (Execution.afterRun ts case r fault).account
      = (Execution.afterRun ts' case r' fault).account := by
  have htokens := Ran.tokens_alike hhow hscenes.tokens
  have hleft : (r'.teardown.leaves r.tokens).isCancelled Tokens.root
      = (r'.teardown.leaves r'.tokens).isCancelled Tokens.root :=
    (r'.teardown.leaves_alike htokens).isCancelled_eq .root
  simp only [account, afterRun, Ran.teardown_alike hhow hscenes, hleft, hscenes.events,
    openingEvents, h.root_eq]

/-- Of the tokens a case notices nothing but which of the root and the caller's token are cancelled
at the start. -/
theorem Tokens.SeenAlike.executeWithin (h : ts.SeenAlike caller caller' ts') (budget : Duration)
    (case : σ) :
    (executeWithin (some budget) caller ts case).map (·.account)
        = (executeWithin (some budget) caller' ts' case).map (·.account) ∧
      cancelsRoot budget caller ts case = cancelsRoot budget caller' ts' case := by
  let b := TestCase.setup (ts.isCancelled Tokens.root) case
  let r := Ran.afterSetup (some budget) caller ts case
  let r' := Ran.afterSetup (some budget) caller' ts' case
  have hsetup : TestCase.setup (ts'.isCancelled Tokens.root) case = b := by rw [← h.root_eq]
  obtain ⟨hhow, hcancels, hscenes⟩ : r.how = r'.how ∧
      Ran.cancels (some budget) caller (b.leaves ts) b.state
        = Ran.cancels (some budget) caller' (b.leaves ts') b.state ∧
      r.scene.Alike Eq r.own r'.own r'.scene := h.afterSetup budget case
  constructor
  · cases hfault : b.fault with
    | some f =>
      have hfault' : (TestCase.setup (ts'.isCancelled Tokens.root) case).fault = some f := by
        rw [hsetup, hfault]
      rw [executeWithin_eq_some hfault, executeWithin_eq_some hfault', Option.map_some,
        Option.map_some, Execution.account_unready h]
    | none =>
      have hfault' : (TestCase.setup (ts'.isCancelled Tokens.root) case).fault = none := by
        rw [hsetup, hfault]
      have hends : r.fault? (some budget) = r'.fault? (some budget) := by
        simp only [Ran.fault?, hhow]
      rw [executeWithin_eq_map hfault, executeWithin_eq_map hfault', Option.map_map,
        Option.map_map]
      show (r.fault? (some budget)).map _ = (r'.fault? (some budget)).map _
      rw [hends]
      exact congrArg (Option.map · _) (funext (Execution.account_afterRun h hhow hscenes case))
  · simp only [cancelsRoot, hsetup]
    show (b.cancelsRoot || b.fault.isNone && (decide (Handle.root ∈ _) || r.teardown.cancelsRoot))
      = (b.cancelsRoot || b.fault.isNone && (decide (Handle.root ∈ _) || r'.teardown.cancelsRoot))
    rw [hcancels, Ran.teardown_alike hhow hscenes]

end Noticing

end EmojiCatalog
