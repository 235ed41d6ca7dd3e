import EmojiCatalog.Proofs.TestCase.Isolation
import Mathlib.Data.List.Basic
import Mathlib.Data.List.Forall2
/-!
The summaries of batches.

A summary lists, in the order of the statuses, those that some report has, each with the number of
its reports (`counts_ofReports`).  Going through the reports and counting one after the other gives
the same list (`foldl_countOne`).  A report has exactly one status, so when all give a verdict the
numbers of the four verdicts add up to the number of reports (`frequency_add`).

That there is one report for each case is up to the batch.  Each of its cases is executed once,
whatever became of those before it, and in the order of the cases (`executeFrom_executes`, by
induction on the cases).  Nothing is asked of the tokens here, so each call of a batch may have a
tree of its own (`afterCalls`), and executes every case once more (`afterCalls_becomes`).
`summaries_account_for_cases` puts these together.
-/

namespace EmojiCatalog

/-! ### Statuses that are counted -/

namespace Summary

/-- The statuses of a list that occur at all, each with the number of times it does. -/
def listed (times : Status → Nat) (l : List Status) : List (Status × Nat) :=
  (l.filter (0 < times ·)).map fun s => (s, times s)

/-- Counts one more report with a status, where statuses stand in order. -/
def countOne (status : Status) : List (Status × Nat) → List (Status × Nat)
  | [] => [(status, 1)]
  | (s, n) :: rest =>
    if status = s then (s, n + 1) :: rest
    else if status.rank < s.rank then (status, 1) :: (s, n) :: rest
    else (s, n) :: countOne status rest

section Listed

variable {times more : Status → Nat} {s status : Status} {l : List Status}

theorem listed_cons_of_zero (h : times s = 0) : listed times (s :: l) = listed times l := by
  rw [listed, List.filter_cons_of_neg (by simp [h]), listed]

theorem listed_cons_of_pos (h : 0 < times s) :
    listed times (s :: l) = (s, times s) :: listed times l := by
  rw [listed, List.filter_cons_of_pos (by simp [h]), List.map_cons, listed]

theorem listed_congr (h : ∀ s ∈ l, times s = more s) : listed times l = listed more l := by
  have hfilter : l.filter (0 < times ·) = l.filter (0 < more ·) :=
    List.filter_congr fun s hs => by rw [h s hs]
  rw [listed, listed, hfilter]
  exact List.map_congr_left fun s hs => by rw [h s (List.mem_of_mem_filter hs)]

theorem mem_listed {n : Nat} : (s, n) ∈ listed times l ↔ s ∈ l ∧ 0 < n ∧ n = times s := by
  simp only [listed, List.mem_map, List.mem_filter, decide_eq_true_eq, Prod.mk.injEq]
  constructor
  · rintro ⟨_, ⟨hmem, hpos⟩, rfl, rfl⟩
    exact ⟨hmem, hpos, rfl⟩
  · rintro ⟨hmem, hpos, rfl⟩
    exact ⟨s, ⟨hmem, hpos⟩, rfl, rfl⟩

/-- A status that is not listed occurs no times. -/
theorem lookup_listed (h : s ∈ l) : ((listed times l).lookup s).getD 0 = times s := by
  rcases Nat.eq_zero_or_pos (times s) with hzero | hpos
  · have hnone : (listed times l).lookup s = none := by
      apply List.lookup_eq_none_iff.mpr
      rintro ⟨s', n⟩ hmem
      obtain ⟨-, hpos, rfl⟩ := mem_listed.mp hmem
      simp only [bne_iff_ne]
      rintro rfl
      exact Nat.ne_of_gt hpos hzero
    rw [hnone, hzero]
    rfl
  · have hmem : s ∈ l.filter (0 < times ·) := List.mem_filter.mpr ⟨h, decide_eq_true hpos⟩
    rw [listed, List.lookup_graph times hmem, Option.getD_some]

/-- Where all the statuses come later, a new one is put in front. -/
theorem countOne_of_lt {counts : List (Status × Nat)}
    (h : ∀ p ∈ counts, status.rank < p.1.rank) :
    countOne status counts = (status, 1) :: counts := by
  cases counts with
  | nil => rfl
  | cons p rest =>
    have hlt : status.rank < p.1.rank := h p List.mem_cons_self
    have hne : status ≠ p.1 := by
      intro heq
      rw [heq] at hlt
      exact Nat.lt_irrefl _ hlt
    rw [countOne, if_neg hne, if_pos hlt]

/-- Counting one more report adds one to its status, and nothing to the others. -/
theorem countOne_listed (hl : l.Pairwise (·.rank < ·.rank)) (hmem : status ∈ l)
    (hself : more status = times status + 1) (hothers : ∀ s, s ≠ status → more s = times s) :
    countOne status (listed times l) = listed more l := by
  induction l with
  | nil => cases hmem
  | cons s rest ih =>
    obtain ⟨hfirst, hrest⟩ := List.pairwise_cons.mp hl
    by_cases hs : s = status
    · subst hs
      -- the rest holds later statuses only, for which nothing changes
      have hunchanged : listed more rest = listed times rest := by
        refine listed_congr fun s' hs' => hothers s' ?_
        rintro rfl
        exact Nat.lt_irrefl _ (hfirst _ hs')
      have hmore : 0 < more s := by omega
      rw [listed_cons_of_pos hmore, hself, hunchanged]
      rcases Nat.eq_zero_or_pos (times s) with hzero | hpos
      · rw [listed_cons_of_zero hzero, hzero]
        apply countOne_of_lt
        rintro ⟨s', n⟩ hs'
        exact hfirst s' (mem_listed.mp hs').1
      · rw [listed_cons_of_pos hpos, countOne, if_pos rfl]
    · have hmem' : status ∈ rest := (List.mem_cons.mp hmem).resolve_left (Ne.symm hs)
      have hlt : s.rank < status.rank := hfirst status hmem'
      have hsame : more s = times s := hothers s hs
      rcases Nat.eq_zero_or_pos (times s) with hzero | hpos
      · rw [listed_cons_of_zero hzero, listed_cons_of_zero (hsame.trans hzero), ih hrest hmem']
      · rw [listed_cons_of_pos hpos, listed_cons_of_pos (hsame ▸ hpos), countOne,
          if_neg (Ne.symm hs), if_neg (Nat.lt_asymm hlt), ih hrest hmem', hsame]

end Listed

/-! ### Reports that are counted -/

/-- How many reports have a status. -/
def frequency (reports : List Report) (s : Status) : Nat := reports.countP (·.status = s)

variable {reports : List Report} {s : Status}

theorem ascending_all : Status.all.Pairwise (·.rank < ·.rank) := by decide

theorem frequency_append (reports more : List Report) (s : Status) :
    frequency (reports ++ more) s = frequency reports s + frequency more s := List.countP_append

theorem frequency_singleton (r : Report) (s : Status) :
    frequency [r] s = if r.status = s then 1 else 0 := by
  simp only [frequency, List.countP_singleton, decide_eq_true_eq]

/-- A summary lists the statuses that some report has. -/
theorem counts_ofReports (reports : List Report) :
    (ofReports reports).counts = listed (frequency reports) Status.all := by
  simp only [ofReports]
  generalize Status.all = l
  induction l with
  | nil => rfl
  | cons s rest ih =>
    rw [List.filterMap_cons, ih]
    cases hn : reports.countP (·.status = s) with
    | zero =>
      rw [listed_cons_of_zero hn]
      rfl
    | succ n =>
      have hpos : 0 < frequency reports s := Nat.lt_of_lt_of_eq n.succ_pos hn.symm
      rw [listed_cons_of_pos hpos, frequency, hn]
      rfl

theorem mem_counts_iff {n : Nat} :
    (s, n) ∈ (ofReports reports).counts ↔ 0 < n ∧ n = frequency reports s := by
  rw [counts_ofReports, mem_listed, and_iff_right (Status.mem_all s)]

/-- The statuses of a summary stand in order, each of them once. -/
theorem ascending_counts (reports : List Report) :
    ((ofReports reports).counts.map Prod.fst).Pairwise (·.rank < ·.rank) := by
  have hkeys : (ofReports reports).counts.map Prod.fst
      = Status.all.filter (0 < frequency reports ·) := by
    rw [counts_ofReports, listed, List.map_map]
    exact List.map_id' _
  rw [hkeys]
  exact ascending_all.filter _

/-- How many cases have a status is how many reports have it. -/
theorem count_ofReports (reports : List Report) (s : Status) :
    (ofReports reports).count s = frequency reports s := by
  rw [count, counts_ofReports, lookup_listed (Status.mem_all s)]

/-- One more report is counted once. -/
theorem counts_concat (reports : List Report) (r : Report) :
    (ofReports (reports ++ [r])).counts = countOne r.status (ofReports reports).counts := by
  rw [counts_ofReports, counts_ofReports]
  symm
  apply countOne_listed ascending_all (Status.mem_all _)
  · rw [frequency_append, frequency_singleton, if_pos rfl]
  · intro s hs
    rw [frequency_append, frequency_singleton, if_neg (Ne.symm hs), Nat.add_zero]

/-- Further reports are counted one after the other. -/
theorem foldl_countOne (before reports : List Report) :
    reports.foldl (fun counts r => countOne r.status counts) (ofReports before).counts
      = (ofReports (before ++ reports)).counts := by
  induction reports generalizing before with
  | nil => rw [List.foldl_nil, List.append_nil]
  | cons r rest ih =>
    rw [List.foldl_cons, ← counts_concat, ih, List.append_assoc, List.singleton_append]

/-- A verdict is exactly one of the four. -/
theorem one_of_isTerminal (h : s.isTerminal) :
    ((if s = .success then 1 else 0) + (if s = .warning then 1 else 0)
      + (if s = .failed then 1 else 0) + (if s = .skipped then 1 else 0) : Nat) = 1 := by
  cases s with
  | pending | running => cases h
  | success | warning | failed | skipped => rfl

/-- Reports that all give a verdict are counted under the four verdicts. -/
theorem frequency_add (h : ∀ r ∈ reports, r.status.isTerminal) :
    frequency reports .success + frequency reports .warning + frequency reports .failed
      + frequency reports .skipped = reports.length := by
  induction reports with
  | nil => rfl
  | cons r rest ih =>
    have hrest := ih fun r hr => h r (List.mem_cons_of_mem _ hr)
    -- the first report adds one under its own status, and nothing under the other three
    have hone := one_of_isTerminal (h r List.mem_cons_self)
    rw [← List.singleton_append]
    simp only [frequency_append, frequency_singleton, List.length_append, List.length_singleton]
    omega

end Summary

/-! ### Lists that stand in relation -/

section InRelation

variable {α β γ : Type}

theorem forall₂_comp {R : α → β → Prop} {S : β → γ → Prop} {T : α → γ → Prop}
    (hT : ∀ {x y z}, R x y → S y z → T x z) {xs : List α} {ys : List β} {zs : List γ}
    (hxy : List.Forall₂ R xs ys) (hyz : List.Forall₂ S ys zs) : List.Forall₂ T xs zs := by
  induction hxy generalizing zs with
  | nil =>
    cases hyz
    exact .nil
  | cons hfirst _ ih =>
    cases hyz with
    | cons hfirst' hrest' => exact .cons (hT hfirst hfirst') (ih hrest')

theorem map_eq_map_of_forall₂ {f : α → γ} {g : β → γ} {xs : List α} {ys : List β}
    (h : List.Forall₂ (fun x y => f x = g y) xs ys) : xs.map f = ys.map g := by
  induction h with
  | nil => rfl
  | cons hfirst _ ih => rw [List.map_cons, List.map_cons, hfirst, ih]

end InRelation

/-! ### Executions of cases -/

/-- A property that all states of an activity have is a property of the state that it leaves. -/
theorem Activity.Alike.state_perform {σ : Type} {P : σ → Prop} {x : Activity σ}
    (hx : x.Alike (fun a _ => P a) x) (budget : Option Duration) (own : Token) {s : Scene σ}
    (hs : P s.state) : P (x.perform budget own s).2.state :=
  (hx.perform ⟨hs, .refl own s.tokens, rfl, rfl⟩).2.2.state

section Executions

variable {σ : Type} [TestCase σ]

/-- A case that is executed within a budget for some caller gets a report, and is left in a
state. -/
def Executed (budget : Duration) (case : σ) (report : Report) (after : σ) : Prop :=
  ∃ caller tokens e, executeWithin (some budget) caller tokens case = some e ∧
    e.report = report ∧ e.case = after

/-- What a case becomes by a number of executions within a budget. -/
inductive Becomes (budget : Duration) : Nat → σ → σ → Prop
  | start (case : σ) : Becomes budget 0 case case
  | executed {n : Nat} {case after now : σ} {report : Report} :
    Executed budget case report after → Becomes budget n after now →
    Becomes budget (n + 1) case now

variable {budget : Duration} {case after now : σ} {report : Report} {n : Nat}

/-- A report is under the name that the case has when its execution starts. -/
theorem Executed.name_eq (h : Executed budget case report after) :
    report.name = TestCase.name case := by
  obtain ⟨caller, tokens, e, he, rfl, -⟩ := h
  cases hfault : (TestCase.setup (tokens.isCancelled Tokens.root) case).fault with
  | some f =>
    obtain rfl := Option.some.inj ((executeWithin_eq_some hfault).symm.trans he)
    rfl
  | none =>
    obtain ⟨fault, -, rfl⟩ :=
      Option.map_eq_some_iff.mp ((executeWithin_eq_map hfault).symm.trans he)
    rfl

theorem Executed.isTerminal (h : Executed budget case report after) :
    report.status.isTerminal := by
  obtain ⟨caller, tokens, e, he, rfl, -⟩ := h
  exact isTerminal_of_executeWithin he

/-- All reports on executed cases give a verdict. -/
theorem isTerminal_of_forall₂ {cases : List σ} {es : List (Execution σ)}
    (h : List.Forall₂ (fun case e => Executed budget case e.report e.case) cases es) :
    ∀ report ∈ es.map (·.report), report.status.isTerminal := by
  induction h with
  | nil => simp
  | cons hfirst _ ih =>
    rw [List.map_cons]
    exact List.forall_mem_cons.mpr ⟨hfirst.isTerminal, ih⟩

variable (σ) in
/-- Cases keep their names when they are executed. -/
def KeepsNames (budget : Duration) : Prop :=
  ∀ (case : σ) (report : Report) (after : σ), Executed budget case report after →
    TestCase.name after = TestCase.name case

theorem Becomes.name_eq (h : Becomes budget n case now) (hnames : KeepsNames σ budget) :
    TestCase.name now = TestCase.name case := by
  induction h with
  | start case => rfl
  | executed hexecuted _ ih => exact ih.trans (hnames _ _ _ hexecuted)

/-- Cases whose phases all keep the name keep it when they are executed. -/
theorem keepsNames_of_phases
    (hsetup : ∀ root (case : σ),
      TestCase.name (TestCase.setup root case).state = TestCase.name case)
    (hrun : ∀ case : σ, (TestCase.run case).Alike
      (fun a _ => TestCase.name a = TestCase.name case) (TestCase.run case))
    (hteardown : ∀ root own (case : σ),
      TestCase.name (TestCase.teardown root own case).state = TestCase.name case)
    (budget : Duration) : KeepsNames σ budget := by
  rintro case report after ⟨caller, tokens, e, he, -, rfl⟩
  obtain ⟨f, -, -, -, hcase, -⟩ | ⟨-, -, -, hcase, -⟩ := executeWithin_cases he
  · rw [hcase, hsetup]
  · rw [hcase, Ran.teardown, hteardown]
    let b := TestCase.setup (tokens.isCancelled Tokens.root) case
    exact (hrun b.state).state_perform _ _ rfl |>.trans (hsetup _ case)

end Executions

/-! ### Calls of a batch -/

namespace Batch

variable {σ : Type} [TestCase σ]

/-- Every case is executed when its turn comes, whatever the tokens. -/
theorem executeAt_executes (budget : Duration) (index total : Nat) (tokens : Tokens) (case : σ) :
    ∃ e, executeAt budget index total tokens case = some e ∧
      Executed budget case e.report e.case := by
  obtain ⟨e, he⟩ := exists_executeWithin budget tokens.fresh (tokens.child Tokens.root) case
  exact ⟨_, executeAt_eq_some he index total, _, _, e, he, rfl, rfl⟩

/-- All cases are executed, each of them once and in order. -/
theorem executeFrom_executes (budget : Duration) (total index : Nat) (tokens : Tokens)
    (cases : List σ) :
    ∃ es tokens', executeFrom budget total index tokens cases = some (es, tokens') ∧
      List.Forall₂ (fun case e => Executed budget case e.report e.case) cases es := by
  induction cases generalizing index tokens with
  | nil => exact ⟨[], tokens, rfl, .nil⟩
  | cons case rest ih =>
    obtain ⟨e, he, hexecuted⟩ := executeAt_executes budget index total tokens case
    obtain ⟨es, tokens', hes, hrest⟩ := ih (index + 1) e.tokens
    exact ⟨e :: es, tokens', executeFrom_cons he hes, .cons hexecuted hrest⟩

/-- A batch that is executed reports once on each of its cases, in order. -/
theorem execute_executes (b : Batch σ) (tokens : Tokens) :
    ∃ r, b.execute tokens = some r ∧ r.batch.budget = b.budget ∧ ∃ es : List (Execution σ),
      r.reports = es.map (·.report) ∧ r.batch.cases = es.map (·.case) ∧
      List.Forall₂ (fun case e => Executed b.budget case e.report e.case) b.cases es := by
  obtain ⟨es, tokens', hes, hexecuted⟩ :=
    executeFrom_executes b.budget b.cases.length 0 tokens b.cases
  exact ⟨_, execute_eq_some hes, rfl, es, rfl, rfl, hexecuted⟩

/-- The batch after some calls, each with a tree of tokens of its own and with the cases as the call
before it has left them. -/
def afterCalls (b : Batch σ) : List Tokens → Option (Batch σ)
  | [] => some b
  | tokens :: rest => do
    let r ← b.execute tokens
    r.batch.afterCalls rest

/-- Every call executes every case once more. -/
theorem afterCalls_becomes (b : Batch σ) (calls : List Tokens) :
    ∃ now, b.afterCalls calls = some now ∧ now.budget = b.budget ∧
      List.Forall₂ (Becomes b.budget calls.length) b.cases now.cases := by
  induction calls generalizing b with
  | nil => exact ⟨b, rfl, rfl, List.forall₂_same.mpr fun case _ => .start case⟩
  | cons tokens rest ih =>
    obtain ⟨r, hr, hbudget, es, -, hcases, hexecuted⟩ := b.execute_executes tokens
    obtain ⟨now, hnow, hbudget', hbecomes⟩ := ih r.batch
    rw [hbudget, hcases, List.forall₂_map_left_iff] at hbecomes
    refine ⟨now, ?_, hbudget'.trans hbudget, ?_⟩
    · rw [afterCalls, hr]
      exact hnow
    · exact forall₂_comp .executed hexecuted hbecomes

end Batch

/-! ### The summaries of all calls -/

/-- **The summary of a batch accounts for all of its cases.**  Whatever calls came before, each with
any tokens, a call of a batch comes to its end.  Each case is executed once, in the state in which
the earlier calls left it, and whatever becomes of the others.  The results are the reports on these
executions, in the order of the cases and under their names, so no case is left out or reported on
twice.  The summary lists only verdicts, each of them once and with a positive number.  The number
of a status is how many results have it, as it comes of counting one result after the other, and
the numbers of the four verdicts add up to the number of cases. -/
theorem summaries_account_for_cases {σ : Type} [TestCase σ] (b : Batch σ) (earlier : List Tokens)
    (tokens : Tokens) :
    ∃ now r, b.afterCalls earlier = some now ∧ now.execute tokens = some r ∧
      List.Forall₂ (Becomes b.budget earlier.length) b.cases now.cases ∧
      (∃ es : List (Execution σ),
        r.reports = es.map (·.report) ∧ r.batch.cases = es.map (·.case) ∧
        List.Forall₂ (fun case e => e.report.name = TestCase.name case ∧
          Executed b.budget case e.report e.case) now.cases es) ∧
      (KeepsNames σ b.budget → r.reports.map (·.name) = b.cases.map TestCase.name) ∧
      (∀ s n, (s, n) ∈ r.summary.counts → s.isTerminal ∧ 0 < n) ∧
      (r.summary.counts.map Prod.fst).Pairwise (·.rank < ·.rank) ∧
      (∀ s, r.summary.count s = r.reports.countP (·.status = s)) ∧
      r.summary.counts = r.reports.foldl (fun counts x => Summary.countOne x.status counts) [] ∧
      r.summary.count .success + r.summary.count .warning + r.summary.count .failed
        + r.summary.count .skipped = r.summary.total ∧
      r.summary.total = b.cases.length := by
  obtain ⟨now, hnow, hbudget, hbecomes⟩ := b.afterCalls_becomes earlier
  obtain ⟨r, hr, -, es, hreports, hcases, hexecuted⟩ := now.execute_executes tokens
  rw [hbudget] at hexecuted
  have hnamed : List.Forall₂ (fun case e => e.report.name = TestCase.name case ∧
      Executed b.budget case e.report e.case) now.cases es :=
    hexecuted.imp fun case e h => ⟨h.name_eq, h⟩
  have hterminal : ∀ x ∈ r.reports, x.status.isTerminal := by
    rw [hreports]
    exact isTerminal_of_forall₂ hexecuted
  have hlength : r.reports.length = b.cases.length := by
    rw [hreports, List.length_map, ← hexecuted.length_eq, hbecomes.length_eq]
  refine ⟨now, r, hnow, hr, hbecomes, ⟨es, hreports, hcases, hnamed⟩, fun hnames => ?_,
    fun s n hmem => ?_, Summary.ascending_counts r.reports, Summary.count_ofReports r.reports,
    (Summary.foldl_countOne [] r.reports).symm, ?_, hlength⟩
  · have hnow : now.cases.map TestCase.name = es.map (·.report.name) :=
      map_eq_map_of_forall₂ (hnamed.imp fun case e h => h.1.symm)
    have hfirst : b.cases.map TestCase.name = now.cases.map TestCase.name :=
      map_eq_map_of_forall₂ (hbecomes.imp fun case now h => (h.name_eq hnames).symm)
    rw [hfirst, hnow, hreports, List.map_map]
    rfl
  · -- a status that is counted is that of some report
    obtain ⟨hpos, hn⟩ := Summary.mem_counts_iff.mp hmem
    obtain ⟨x, hx, hstatus⟩ := List.countP_pos_iff.mp (hn ▸ hpos)
    rw [← of_decide_eq_true hstatus]
    exact ⟨hterminal x hx, hpos⟩
  · simp only [BatchRun.summary, Summary.count_ofReports]
    exact Summary.frequency_add hterminal

/-- No phase of a script changes the name. -/
theorem Scripted.keepsNames (budget : Duration) : KeepsNames Scripted budget := by
  refine keepsNames_of_phases ?_ ?_ ?_ budget
  · rintro root (⟨s, d⟩ | ⟨name, f⟩) <;> rfl
  · rintro (⟨s, d⟩ | ⟨name, f⟩)
    · exact alike_runScript s.teardown (fun _ => rfl) d
    · exact .finish f rfl
  · rintro root own (⟨s, d⟩ | ⟨name, f⟩) <;> rfl

/-- A case that cannot be set up, one that is skipped, one that waits for its token, one that
cancels the root and fails in its teardown, one with a warning, and one with nothing to say. -/
def Scripted.mixedFates : Batch Scripted where
  cases := [.full { name := "unready", setup := some (.failed "no room") } .empty,
    .plain "elsewhere" (some (.skipped "not here")),
    .full { name := "waits", hangs := true } .empty,
    .full { name := "stops all", cancelsRoot := true, teardown := some (.failed "late") } .empty,
    .plain "slow" (some (.warning "took long")), .plain "quiet" none]
  budget := .ofMillis 20

/-- The first call gives the waiting case up, and the second, with the root cancelled from the
start, does not; all six cases are reported on and counted both times. -/
theorem summaries_account_for_cases_mixedFates :
    (Scripted.mixedFates.execute (.start false)).map (·.summary)
      = some ⟨6, [(.success, 2), (.warning, 1), (.failed, 2), (.skipped, 1)]⟩ ∧
    ∃ now r, Scripted.mixedFates.afterCalls [.start false] = some now ∧
      now.execute (.start true) = some r ∧
      r.reports.map (·.name) = ["unready", "elsewhere", "waits", "stops all", "slow", "quiet"] ∧
      r.summary = ⟨6, [(.success, 3), (.warning, 1), (.failed, 1), (.skipped, 1)]⟩ := by
  obtain ⟨now, r, hnow, hr, -, -, hnames, -⟩ :=
    summaries_account_for_cases Scripted.mixedFates [.start false] (.start true)
  have hsummary : ((Scripted.mixedFates.afterCalls [.start false]).bind fun now =>
      (now.execute (.start true)).map (·.summary))
      = some ⟨6, [(.success, 3), (.warning, 1), (.failed, 1), (.skipped, 1)]⟩ := rfl
  rw [hnow, Option.bind_some, hr] at hsummary
  exact ⟨rfl, now, r, hnow, hr, hnames (Scripted.keepsNames _), Option.some.inj hsummary⟩

end EmojiCatalog
