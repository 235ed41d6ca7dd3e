import EmojiCatalog.Proofs.TestCase.Footprint
import EmojiCatalog.TestCase.Batch
/-!
The isolation of the cases of a batch.

The cases of a batch share the root of the tokens.  A case notices of the others at most that the
root is cancelled when its turn comes (`Batch.rootAt`), which it is exactly if it was before or an
earlier case has cancelled it.  Apart from that it is executed as it would be alone
(`executeFrom_alone`, by induction on the cases, with the tree of tokens that the earlier ones have
left).

A run of a batch is therefore made of executions of its cases alone (`Batch.Isolated`).  Two runs
agree on a case for which they have the root cancelled alike, whatever their other cases do
(`Isolated.agree`), and a run leaves a tree in which the next one can start.
-/

namespace EmojiCatalog

/-! ### Cases in a batch -/

section Alone

variable {σ : Type} [TestCase σ]

/-- Executes a case alone, under a root that is cancelled from the start or not. -/
def executeAlone (budget : Duration) (cancelled : Bool) (case : σ) : Option (Execution σ) :=
  executeWithin (some budget) Tokens.root (.start cancelled) case

/-- Whether a case that is executed alone itself cancels the root. -/
def cancelsRootAlone (budget : Duration) (cancelled : Bool) (case : σ) : Bool :=
  cancelsRoot budget Tokens.root (.start cancelled) case

/-- Whether one of some cases cancels the root, when each starts with the root cancelled exactly if
it was before or an earlier one has cancelled it. -/
def someCancelsRoot (budget : Duration) : Bool → List σ → Bool
  | _, [] => false
  | cancelled, case :: rest =>
    let c := cancelsRootAlone budget cancelled case
    c || someCancelsRoot budget (cancelled || c) rest

/-- Whether the root is cancelled after some cases. -/
def rootAfter (budget : Duration) (cancelled : Bool) (cases : List σ) : Bool :=
  cancelled || someCancelsRoot budget cancelled cases

theorem rootAfter_nil (budget : Duration) (cancelled : Bool) :
    rootAfter budget cancelled ([] : List σ) = cancelled := Bool.or_false _

theorem rootAfter_cons (budget : Duration) (cancelled : Bool) (case : σ) (rest : List σ) :
    rootAfter budget cancelled (case :: rest)
      = rootAfter budget (cancelled || cancelsRootAlone budget cancelled case) rest :=
  (Bool.or_assoc _ _ _).symm

theorem someCancelsRoot_iff {budget : Duration} {cancelled : Bool} {cases : List σ} :
    someCancelsRoot budget cancelled cases = true ↔ ∃ j case, cases[j]? = some case ∧
      cancelsRootAlone budget (rootAfter budget cancelled (cases.take j)) case = true := by
  induction cases generalizing cancelled with
  | nil => exact ⟨nofun, nofun⟩
  | cons first rest ih =>
    rw [someCancelsRoot, Bool.or_eq_true, ih]
    constructor
    · rintro (hfirst | ⟨j, case, hcase, hcancels⟩)
      · refine ⟨0, first, rfl, ?_⟩
        rw [List.take_zero, rootAfter_nil]
        exact hfirst
      · refine ⟨j + 1, case, hcase, ?_⟩
        rw [List.take_succ_cons, rootAfter_cons]
        exact hcancels
    · rintro ⟨j, case, hcase, hcancels⟩
      cases j with
      | zero =>
        obtain rfl := Option.some.inj hcase
        rw [List.take_zero, rootAfter_nil] at hcancels
        exact .inl hcancels
      | succ j =>
        rw [List.take_succ_cons, rootAfter_cons] at hcancels
        exact .inr ⟨j, case, hcase, hcancels⟩

namespace Batch

variable {tokens : Tokens} {cancelled : Bool}

/-- An event before the others of an execution. -/
def withCaseEvent (index total : Nat) (case : σ) (e : Execution σ) : Execution σ :=
  { e with events := caseEvent index total case :: e.events }

theorem executeAt_eq_some {budget : Duration} {case : σ} {e : Execution σ}
    (h : executeWithin (some budget) tokens.fresh (tokens.child Tokens.root) case = some e)
    (index total : Nat) :
    executeAt budget index total tokens case = some (withCaseEvent index total case e) := by
  rw [executeAt, h]
  rfl

theorem executeFrom_cons {budget : Duration} {total index : Nat} {case : σ} {rest : List σ}
    {e : Execution σ} {es : List (Execution σ)} {tokens' : Tokens}
    (he : executeAt budget index total tokens case = some e)
    (hes : executeFrom budget total (index + 1) e.tokens rest = some (es, tokens')) :
    executeFrom budget total index tokens (case :: rest) = some (e :: es, tokens') := by
  rw [executeFrom, he]
  simp only [Option.bind_eq_bind, Option.bind_some, hes]
  rfl

theorem execute_eq_some {b : Batch σ} {es : List (Execution σ)} {tokens' : Tokens}
    (h : executeFrom b.budget b.cases.length 0 tokens b.cases = some (es, tokens')) :
    b.execute tokens = some {
      batch := { b with cases := es.map (·.case) }
      reports := es.map (·.report)
      tokens := tokens'
      events := startEvent b.cases.length :: es.flatMap (·.events)
        ++ [endEvent (.ofReports (es.map (·.report)))] } := by
  rw [execute, h]
  rfl

/-- In a batch a case is executed as it would be alone. -/
theorem executeAt_alone (htokens : tokens.IsGrown)
    (hroot : tokens.isCancelled Tokens.root = cancelled) (budget : Duration) (index total : Nat)
    (case : σ) :
    ∃ e e', executeAlone budget cancelled case = some e ∧
      executeAt budget index total tokens case = some e' ∧
      e'.account = (withCaseEvent index total case e).account ∧
      tokens.Spares (cancelsRootAlone budget cancelled case) e'.tokens := by
  have hlt : tokens.fresh < (tokens.child Tokens.root).nodes.length := by
    rw [Tokens.length_child]
    exact Nat.lt_succ_self _
  have hchild := (Tokens.Spares.refl htokens).child htokens.root_lt
  have halike :
      (tokens.child Tokens.root).SeenAlike tokens.fresh Tokens.root (.start cancelled) := by
    constructor
    case isGrown => exact hchild.isGrown
    case isGrown' => exact Tokens.isGrown_start cancelled
    case lt => exact hlt
    case lt' => exact Nat.zero_lt_one
    case root_eq =>
      rw [Tokens.isCancelled_child_of_lt htokens.root_lt, hroot]
      rfl
    case caller_eq =>
      rw [Tokens.isCancelled_child_fresh, hroot]
      rfl
  obtain ⟨e, he⟩ := exists_executeWithin budget Tokens.root (.start cancelled) case
  obtain ⟨e', he'⟩ := exists_executeWithin budget tokens.fresh (tokens.child Tokens.root) case
  obtain ⟨haccounts, hcancels⟩ := halike.executeWithin budget case
  rw [he, he'] at haccounts
  have haccount : e'.account = e.account := Option.some.inj haccounts
  have hspares := hchild.trans (executeWithin_spares hchild.isGrown hlt he')
  rw [hcancels, Bool.false_or] at hspares
  refine ⟨e, withCaseEvent index total case e', he, executeAt_eq_some he' index total, ?_, hspares⟩
  simp only [Execution.account, Prod.mk.injEq] at haccount ⊢
  obtain ⟨hreport, hcase, htrace, hevents⟩ := haccount
  exact ⟨hreport, hcase, htrace, congrArg (_ :: ·) hevents⟩

/-- All cases of a batch are executed as they would be alone, each under a root as the earlier ones
have left it. -/
theorem executeFrom_alone (htokens : tokens.IsGrown)
    (hroot : tokens.isCancelled Tokens.root = cancelled) (budget : Duration) (total index : Nat)
    (cases : List σ) :
    ∃ es tokens', executeFrom budget total index tokens cases = some (es, tokens') ∧
      es.length = cases.length ∧
      tokens.Spares (someCancelsRoot budget cancelled cases) tokens' ∧
      ∀ i case, cases[i]? = some case → ∃ e e',
        executeAlone budget (rootAfter budget cancelled (cases.take i)) case = some e ∧
        es[i]? = some e' ∧ e'.account = (withCaseEvent (index + i) total case e).account := by
  induction cases generalizing tokens cancelled index with
  | nil => exact ⟨[], tokens, rfl, rfl, .refl htokens, nofun⟩
  | cons first rest ih =>
    obtain ⟨e, e', he, he', haccount, hspares⟩ :=
      executeAt_alone htokens hroot budget index total first
    have hroot' : e'.tokens.isCancelled Tokens.root
        = (cancelled || cancelsRootAlone budget cancelled first) := by
      rw [hspares.isCancelled_eq _ htokens.root_lt, hroot]
    obtain ⟨es, tokens', hes, hlength, hspares', hrest⟩ := ih hspares.isGrown hroot' (index + 1)
    refine ⟨e' :: es, tokens', executeFrom_cons he' hes, congrArg (· + 1) hlength,
      hspares.trans hspares', ?_⟩
    intro i case hcase
    cases i with
    | zero =>
      obtain rfl := Option.some.inj hcase
      refine ⟨e, e', ?_, rfl, haccount⟩
      rw [List.take_zero, rootAfter_nil]
      exact he
    | succ i =>
      obtain ⟨e, e', he, he', haccount⟩ := hrest i case hcase
      rw [Nat.add_right_comm] at haccount
      refine ⟨e, e', ?_, he', haccount⟩
      rw [List.take_succ_cons, rootAfter_cons]
      exact he

/-- Whether the root is cancelled when the case at a place has its turn. -/
def rootAt (b : Batch σ) (cancelled : Bool) (i : Nat) : Bool :=
  rootAfter b.budget cancelled (b.cases.take i)

theorem rootAt_iff {b : Batch σ} {i : Nat} :
    b.rootAt cancelled i = true ↔ cancelled = true ∨ ∃ j < i, ∃ case, b.cases[j]? = some case ∧
      cancelsRootAlone b.budget (b.rootAt cancelled j) case = true := by
  rw [rootAt, rootAfter, Bool.or_eq_true, someCancelsRoot_iff]
  simp only [List.getElem?_take, Option.ite_none_right_eq_some]
  refine or_congr_right (exists_congr fun j => ?_)
  constructor
  · rintro ⟨case, ⟨hj, hcase⟩, hcancels⟩
    rw [List.take_take, Nat.min_eq_left (Nat.le_of_lt hj)] at hcancels
    exact ⟨hj, case, hcase, hcancels⟩
  · rintro ⟨hj, case, hcase, hcancels⟩
    refine ⟨case, ⟨hj, hcase⟩, ?_⟩
    rw [List.take_take, Nat.min_eq_left (Nat.le_of_lt hj)]
    exact hcancels

/-- A run of a batch in which every case was executed as it would be alone. -/
structure Isolated (b : Batch σ) (tokens : Tokens) (r : BatchRun σ) : Prop where
  budget_eq : r.batch.budget = b.budget
  length_cases : r.batch.cases.length = b.cases.length
  length_reports : r.reports.length = b.cases.length
  /-- A case gets the report, and is left in the state, that it would get alone. -/
  alone : ∀ i case, b.cases[i]? = some case → ∃ e,
    executeAlone b.budget (b.rootAt (tokens.isCancelled Tokens.root) i) case = some e ∧
    r.reports[i]? = some e.report ∧ r.batch.cases[i]? = some e.case
  /-- The log is made of what the cases would log alone. -/
  events_eq : r.events = startEvent b.cases.length
    :: (b.cases.mapIdx fun i case => caseEvent i b.cases.length case ::
      (executeAlone b.budget (b.rootAt (tokens.isCancelled Tokens.root) i) case).elim []
        (·.events)).flatten
    ++ [endEvent (.ofReports r.reports)]
  /-- The tokens that were there before are cancelled only if some case itself cancels the root. -/
  spares : tokens.Spares
    (someCancelsRoot b.budget (tokens.isCancelled Tokens.root) b.cases) r.tokens

theorem execute_isolated (b : Batch σ) (htokens : tokens.IsGrown) :
    ∃ r, b.execute tokens = some r ∧ b.Isolated tokens r := by
  obtain ⟨es, tokens', hes, hlength, hspares, halone⟩ :=
    executeFrom_alone htokens rfl b.budget b.cases.length 0 b.cases
  simp only [Nat.zero_add, Execution.account, withCaseEvent, Prod.mk.injEq] at halone
  have hevents : es.map (·.events) = b.cases.mapIdx fun i case =>
      caseEvent i b.cases.length case ::
        (executeAlone b.budget (b.rootAt (tokens.isCancelled Tokens.root) i) case).elim []
          (·.events) := by
    refine List.ext_getElem? fun i => ?_
    rw [List.getElem?_map, List.getElem?_mapIdx]
    cases hcase : b.cases[i]? with
    | none =>
      rw [List.getElem?_eq_none_iff, ← hlength, ← List.getElem?_eq_none_iff] at hcase
      rw [hcase]
      rfl
    | some case =>
      obtain ⟨e, e', he, he', -, -, -, hevents⟩ := halone i case hcase
      rw [he', Option.map_some, Option.map_some, hevents, rootAt, he]
      rfl
  refine ⟨_, execute_eq_some hes, ?_⟩
  constructor
  case budget_eq => rfl
  case length_cases => exact (List.length_map _).trans hlength
  case length_reports => exact (List.length_map _).trans hlength
  case alone =>
    intro i case hcase
    obtain ⟨e, e', he, he', hreport, hstate, -⟩ := halone i case hcase
    refine ⟨e, he, ?_, ?_⟩
    · rw [List.getElem?_map, he', ← hreport]
      rfl
    · rw [List.getElem?_map, he', ← hstate]
      rfl
  case events_eq =>
    rw [← hevents, ← List.flatMap_def]
  case spares => exact hspares

/-! ### Other cases, and repeated runs -/

/-- A case in another's place that cancels the root alike makes no difference to the root. -/
theorem someCancelsRoot_set {budget : Duration} {cases : List σ} {k : Nat} {x : σ}
    (h : ∀ case, cases[k]? = some case →
      cancelsRootAlone budget (rootAfter budget cancelled (cases.take k)) x
        = cancelsRootAlone budget (rootAfter budget cancelled (cases.take k)) case) :
    someCancelsRoot budget cancelled (cases.set k x) = someCancelsRoot budget cancelled cases := by
  induction cases generalizing cancelled k with
  | nil => rfl
  | cons first rest ih =>
    cases k with
    | zero =>
      have hfirst := h first rfl
      rw [List.take_zero, rootAfter_nil] at hfirst
      rw [List.set_cons_zero, someCancelsRoot, someCancelsRoot, hfirst]
    | succ k =>
      rw [List.set_cons_succ, someCancelsRoot, someCancelsRoot]
      refine congrArg _ (ih fun case hcase => ?_)
      have hcase' := h case hcase
      rw [List.take_succ_cons, rootAfter_cons] at hcase'
      exact hcase'

/-- The batch with another case at a place. -/
def set (b : Batch σ) (k : Nat) (x : σ) : Batch σ := { b with cases := b.cases.set k x }

theorem rootAt_set {b : Batch σ} {k : Nat} {x : σ}
    (h : ∀ case, b.cases[k]? = some case →
      cancelsRootAlone b.budget (b.rootAt cancelled k) x
        = cancelsRootAlone b.budget (b.rootAt cancelled k) case) (i : Nat) :
    (b.set k x).rootAt cancelled i = b.rootAt cancelled i := by
  rw [rootAt, rootAt, rootAfter, rootAfter, set, List.take_set]
  refine congrArg _ (someCancelsRoot_set fun case hcase => ?_)
  obtain ⟨hk, hcase⟩ : k < i ∧ b.cases[k]? = some case := by
    simpa only [List.getElem?_take, Option.ite_none_right_eq_some] using hcase
  rw [List.take_take, Nat.min_eq_left (Nat.le_of_lt hk)]
  exact h case hcase

/-- Two runs agree on a case that both have, with the same budget and the root cancelled alike. -/
theorem Isolated.agree {b b' : Batch σ} {tokens' : Tokens} {r r' : BatchRun σ} {i : Nat}
    (h : b.Isolated tokens r) (h' : b'.Isolated tokens' r') (hbudget : b'.budget = b.budget)
    (hcase : b'.cases[i]? = b.cases[i]?)
    (hroot : b'.rootAt (tokens'.isCancelled Tokens.root) i
      = b.rootAt (tokens.isCancelled Tokens.root) i) :
    r'.reports[i]? = r.reports[i]? ∧ r'.batch.cases[i]? = r.batch.cases[i]? := by
  cases hc : b.cases[i]? with
  | none =>
    have hlen := List.getElem?_eq_none_iff.mp hc
    have hlen' := List.getElem?_eq_none_iff.mp (hcase.trans hc)
    rw [List.getElem?_eq_none (Nat.le_trans (Nat.le_of_eq h.length_reports) hlen),
      List.getElem?_eq_none (Nat.le_trans (Nat.le_of_eq h.length_cases) hlen),
      List.getElem?_eq_none (Nat.le_trans (Nat.le_of_eq h'.length_reports) hlen'),
      List.getElem?_eq_none (Nat.le_trans (Nat.le_of_eq h'.length_cases) hlen')]
    exact ⟨rfl, rfl⟩
  | some case =>
    obtain ⟨e, he, hreport, hstate⟩ := h.alone i case hc
    obtain ⟨e', he', hreport', hstate'⟩ := h'.alone i case (hcase.trans hc)
    rw [hbudget, hroot, he] at he'
    obtain rfl := Option.some.inj he'
    exact ⟨hreport'.trans hreport.symm, hstate'.trans hstate.symm⟩

/-- The batch and the tokens after some runs, each with the cases and the tokens that the run before
it has left. -/
def afterRuns (b : Batch σ) (tokens : Tokens) : Nat → Option (Batch σ × Tokens)
  | 0 => some (b, tokens)
  | n + 1 => do
    let (b, tokens) ← b.afterRuns tokens n
    let r ← b.execute tokens
    return (r.batch, r.tokens)

theorem exists_afterRuns (b : Batch σ) (htokens : tokens.IsGrown) (n : Nat) :
    ∃ b' tokens', b.afterRuns tokens n = some (b', tokens') ∧ b'.budget = b.budget ∧
      b'.cases.length = b.cases.length ∧ tokens'.IsGrown := by
  induction n with
  | zero => exact ⟨b, tokens, rfl, rfl, rfl, htokens⟩
  | succ n ih =>
    obtain ⟨b', tokens', hruns, hbudget, hlength, hgrown⟩ := ih
    obtain ⟨r, hr, hisolated⟩ := b'.execute_isolated hgrown
    refine ⟨r.batch, r.tokens, ?_, hisolated.budget_eq.trans hbudget,
      hisolated.length_cases.trans hlength, hisolated.spares.isGrown⟩
    simp only [afterRuns, hruns, Option.bind_eq_bind, Option.bind_some, hr, Option.pure_def]

end Batch

end Alone

/-- **The cases of a batch are isolated.**  In every run of a batch, the first or a later one, each
case is executed as it would be alone under a root that is cancelled from the start exactly if it
was cancelled before the run or by an earlier case.  After the run the root is cancelled exactly if
it was before or some case cancelled it itself, so a case that fails, runs out of time or cancels
its own token changes nothing for the others: with any case in its place that cancels the root
alike, they get the same reports and are left in the same states.  Whatever the tokens of its
caller, a case changes none of them unless it cancels the root; and one that runs out of time finds
the token of its run cancelled in its teardown, while giving it up leaves the tokens of the caller
as they were. -/
theorem batch_isolates_cases {σ : Type} [TestCase σ] (b : Batch σ) (tokens : Tokens)
    (htokens : tokens.IsGrown) (n : Nat) :
    (∃ b' tokens' r, b.afterRuns tokens n = some (b', tokens') ∧
      b'.budget = b.budget ∧ b'.cases.length = b.cases.length ∧
      b'.execute tokens' = some r ∧ b'.Isolated tokens' r ∧
      let cancelled := tokens'.isCancelled Tokens.root
      (∀ i, b'.rootAt cancelled i = true ↔ cancelled = true ∨
        ∃ j < i, ∃ case, b'.cases[j]? = some case ∧
          cancelsRootAlone b'.budget (b'.rootAt cancelled j) case = true) ∧
      (r.tokens.isCancelled Tokens.root = true ↔ cancelled = true ∨
        ∃ j case, b'.cases[j]? = some case ∧
          cancelsRootAlone b'.budget (b'.rootAt cancelled j) case = true) ∧
      ∀ k x, (∀ case, b'.cases[k]? = some case →
          cancelsRootAlone b'.budget (b'.rootAt cancelled k) x
            = cancelsRootAlone b'.budget (b'.rootAt cancelled k) case) →
        ∃ r', (b'.set k x).execute tokens' = some r' ∧
          r'.tokens.isCancelled Tokens.root = r.tokens.isCancelled Tokens.root ∧
          ∀ i, i ≠ k → r'.reports[i]? = r.reports[i]? ∧
            r'.batch.cases[i]? = r.batch.cases[i]?) ∧
    ∀ (caller : Token) (ts : Tokens) (case : σ), ts.IsGrown → caller < ts.nodes.length →
      (∀ e, executeWithin (some b.budget) caller ts case = some e → ∀ t < ts.nodes.length,
        e.tokens.isCancelled t = (ts.isCancelled t || cancelsRoot b.budget caller ts case)) ∧
      let r := Ran.afterSetup (some b.budget) caller ts case
      ((TestCase.setup (ts.isCancelled Tokens.root) case).fault = none → r.how = .expired →
        r.tokens.isCancelled r.own = true ∧
        (∀ t < ts.nodes.length, r.tokens.isCancelled t = r.scene.tokens.isCancelled t) ∧
        ∃ e, executeWithin (some b.budget) caller ts case = some e ∧
          e.report.fault = some (.timedOut b.budget) ∧
          e.case = (TestCase.teardown (r.tokens.isCancelled Tokens.root) true
            r.scene.state).state) := by
  constructor
  · obtain ⟨b', tokens', hruns, hbudget, hlength, hgrown⟩ := b.exists_afterRuns htokens n
    obtain ⟨r, hr, hisolated⟩ := b'.execute_isolated hgrown
    have hroot := hisolated.spares.isCancelled_eq _ hgrown.root_lt
    refine ⟨b', tokens', r, hruns, hbudget, hlength, hr, hisolated, fun i => Batch.rootAt_iff, ?_,
      fun k x hx => ?_⟩
    · rw [hroot, Bool.or_eq_true, someCancelsRoot_iff]
      rfl
    · obtain ⟨r', hr', hisolated'⟩ := (b'.set k x).execute_isolated hgrown
      refine ⟨r', hr', ?_, fun i hi => ?_⟩
      · rw [hroot, hisolated'.spares.isCancelled_eq _ hgrown.root_lt]
        exact congrArg _ (Batch.someCancelsRoot_set hx)
      · exact hisolated.agree hisolated' rfl (List.getElem?_set_ne hi.symm) (Batch.rootAt_set hx i)
  · intro caller ts case hts hcaller
    exact ⟨fun e he => (executeWithin_spares hts hcaller he).isCancelled_eq,
      teardown_of_expired hts hcaller⟩

/-- A case that waits for its token. -/
def Scripted.waits : Scripted := .full { name := "waits", hangs := true } .empty

/-- A case that waits, one that cancels its own token, one that cancels the root, and one that only
looks. -/
def Scripted.crowd : Batch Scripted where
  cases := [.waits, .full { name := "stops itself", cancelsOwn := true } .empty,
    .full { name := "stops all", cancelsRoot := true } .empty, .full { name := "looks" } .empty]
  budget := .ofMillis 20

/-- The first run of the crowd gives the waiting case up, and its teardown finds its token
cancelled; the third case cancels the root.  The second run has the root cancelled from the start,
so that nothing is left to wait for. -/
theorem batch_isolates_cases_crowd :
    (Tokens.start false).IsGrown ∧
    (Scripted.crowd.execute (.start false)).map (·.reports.map (·.status))
      = some [.failed, .success, .success, .success] ∧
    (∃ r, Ran.afterSetup (some (.ofMillis 20)) Tokens.root (.start false) Scripted.waits = r ∧
      r.how = .expired ∧ r.tokens.isCancelled r.own = true) ∧
    ∃ b tokens r, Scripted.crowd.afterRuns (.start false) 1 = some (b, tokens) ∧
      tokens.isCancelled Tokens.root = true ∧ b.execute tokens = some r ∧ b.Isolated tokens r ∧
      r.reports.map (·.status) = [.success, .success, .success, .success] := by
  have hstart := Tokens.isGrown_start false
  obtain ⟨⟨b, tokens, r, hruns, -, -, hr, hisolated, -⟩, hcallers⟩ :=
    batch_isolates_cases Scripted.crowd (.start false) hstart 1
  obtain ⟨-, hexpiry⟩ := hcallers Tokens.root (.start false) Scripted.waits hstart Nat.zero_lt_one
  obtain ⟨hown, -⟩ := hexpiry rfl rfl
  have hroot : (Scripted.crowd.afterRuns (.start false) 1).map (·.2.isCancelled Tokens.root)
      = some true := rfl
  have hstatuses : ((Scripted.crowd.afterRuns (.start false) 1).bind fun p =>
      (p.1.execute p.2).map (·.reports.map (·.status)))
      = some [.success, .success, .success, .success] := rfl
  rw [hruns] at hroot hstatuses
  rw [Option.bind_some, hr] at hstatuses
  exact ⟨hstart, rfl, ⟨_, rfl, rfl, hown⟩, b, tokens, r, hruns, Option.some.inj hroot, hr,
    hisolated, Option.some.inj hstatuses⟩

end EmojiCatalog
