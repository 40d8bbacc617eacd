/-
  What callers of a physical plan can rely on.

  1. **The lifecycle protocol** (`lifecycle_protocol`) — the documented automaton of a stage,
     unopened → open → end of file, error or closed, over any sequence of calls on the root of a
     fresh plan.  `DocumentedRun` is that automaton run over a list of calls and outcomes; what a
     caller cares about follows from it alone (`opens_once`, `eof_until_close`), and the step lemma
     of `Physical/Protocol.lean` says that every call of a plan is documented.

  2. **Cleanup** (`execute_cleans_up`) — a run holds the root in a `PlanStageExecutionGuard`.
     However the scope is left, every stage is closed, its hook has run once and its buffer is
     empty; the outcome is that of the scope, and every exception comes from a predicate, a
     projection or a comparison of rows (`Raises`).

  3. **Statistics** (`statistics_conserved`) — what the counters of neighbouring stages have to do
     with each other after any calls, also throwing ones.  It is read off the invariant `Inv` of
     `Physical/StageInvariants.lean`, of which the protocol is the other half.
-/
import QueryLume.Physical.Protocol

namespace QueryLume

open StdAlgorithms

/-! ## The automaton, over whole runs

  From one call to histories of calls.  The state of the root is a function of the outcomes its
  caller has seen, so the protocol can be stated without a look inside. -/

/-- Calls and outcomes of a run that keeps to the documentation, from a given state on. -/
def DocumentedRun : LifecycleState → List RootCall → List RootOutcome → Prop
  | _, [], [] => True
  | state, call :: calls, outcome :: outcomes =>
    Documented state call outcome ∧ DocumentedRun (state.after outcome) calls outcomes
  | _, _, _ => False

/-- The state a history of outcomes leads to. -/
def LifecycleState.afterAll (state : LifecycleState) (outcomes : List RootOutcome) :
    LifecycleState := outcomes.foldl LifecycleState.after state

/-- A successful `open()`. -/
def RootOutcome.opens : RootOutcome → Bool
  | opened (.ok ()) => true
  | _ => false

/-- Which calls a state admits. -/
def RootCall.admittedIn : RootCall → LifecycleState → Prop
  | .open, state => state = .kUnopened
  | .getNext _, state => state = .kOpen ∨ state = .kEof
  | .close, _ => True

theorem Documented.after_ne_unopened {state : LifecycleState} {call : RootCall}
    {outcome : RootOutcome} (h : Documented state call outcome) (hstate : state ≠ .kUnopened) :
    state.after outcome ≠ .kUnopened := by
  have hopen : LifecycleState.kOpen ≠ .kUnopened := by decide
  have heof : LifecycleState.kEof ≠ .kUnopened := by decide
  have hclosed : LifecycleState.kClosed ≠ .kUnopened := by decide
  cases h with
  | openOk | openFails own => exact absurd rfl hstate
  | advanced row output | getNextFails row own => exact hopen
  | eof row | eofAgain row => exact heof
  | closed => cases state <;> exact hclosed
  | openTwice state_ne code | notOpen row notRunning code =>
    cases state with
    | kUnopened => exact absurd rfl hstate
    | kOpen => exact hopen
    | kClosed => exact hclosed
    | kEof => exact heof

/-- Once a stage is not unopened any more, `open()` never succeeds; by induction on the calls. -/
theorem DocumentedRun.no_opens : ∀ {state : LifecycleState} {calls : List RootCall}
    {outcomes : List RootOutcome}, DocumentedRun state calls outcomes → state ≠ .kUnopened →
    outcomes.countP (·.opens) = 0
  | _, [], [], _, _ => rfl
  | state, call :: calls, outcome :: outcomes, ⟨hfirst, hrest⟩, hstate => by
    have hopens : outcome.opens = false := by
      cases hfirst with
      | openOk => exact absurd rfl hstate
      | openFails own | openTwice state_ne code | advanced row output | eof row
      | getNextFails row own | eofAgain row | notOpen row notRunning code | closed => rfl
    rw [List.countP_cons, hrest.no_opens (hfirst.after_ne_unopened hstate), hopens]
    rfl

/-- `open()` succeeds at most once. -/
theorem DocumentedRun.opens_once : ∀ {state : LifecycleState} {calls : List RootCall}
    {outcomes : List RootOutcome}, DocumentedRun state calls outcomes →
    outcomes.countP (·.opens) ≤ 1
  | _, [], [], _ => Nat.zero_le _
  | state, call :: calls, outcome :: outcomes, ⟨hfirst, hrest⟩ => by
    rw [List.countP_cons]
    by_cases hopens : outcome.opens = true
    · have hstate : state.after outcome ≠ .kUnopened := by
        cases hfirst with
        | openOk => decide
        | openFails own | openTwice state_ne code | advanced row output | eof row
        | getNextFails row own | eofAgain row | notOpen row notRunning code | closed => cases hopens
      rw [hrest.no_opens hstate, if_pos hopens]
    · rw [if_neg hopens]
      exact hrest.opens_once

/-- From EOF on, and until `close()`, every `getNext()` returns `kEof`. -/
theorem DocumentedRun.eof_until_close : ∀ {calls : List RootCall} {outcomes : List RootOutcome},
    DocumentedRun .kEof calls outcomes → .closed ∉ outcomes →
    ∀ result output, .pulled result output ∈ outcomes → result = .ok .kEof
  | [], [], _, _, result, output, hmem => nomatch hmem
  | call :: calls, outcome :: outcomes, ⟨hfirst, hrest⟩, hopen, result, output, hmem => by
    have hopen' : .closed ∉ outcomes := fun h => hopen (List.mem_cons_of_mem _ h)
    cases hfirst with
    | openTwice state_ne code =>
      rcases List.mem_cons.mp hmem with h | h
      · cases h
      · exact DocumentedRun.eof_until_close hrest hopen' result output h
    | eofAgain row =>
      rcases List.mem_cons.mp hmem with h | h
      · obtain ⟨rfl, -⟩ := RootOutcome.pulled.inj h
        rfl
      · exact DocumentedRun.eof_until_close hrest hopen' result output h
    | notOpen row notRunning code => exact absurd notRunning (by decide)
    | closed => exact absurd List.mem_cons_self hopen

/-- What is left of a documented run is documented, from the state it has led to. -/
theorem DocumentedRun.drop : ∀ {state : LifecycleState} {calls : List RootCall}
    {outcomes : List RootOutcome} (n : Nat), DocumentedRun state calls outcomes →
    DocumentedRun (state.afterAll (outcomes.take n)) (calls.drop n) (outcomes.drop n)
  | _, _, _, 0, h => h
  | _, [], [], _ + 1, _ => trivial
  | _, _ :: _, _ :: _, n + 1, ⟨_, hrest⟩ => DocumentedRun.drop n hrest

namespace PlanStageTree

variable [StdLibrary]

/-- A fresh plan and a clock. -/
def session (tree : PlanStageTree) (clock : Clock) : Session tree.Object := ⟨tree.constructed, clock⟩

/-- The state of the root after any calls is the one the outcomes lead to, and the invariant holds
    there. -/
theorem rootCalls_session (tree : PlanStageTree) (clock : Clock) (calls : List RootCall) :
    let run := rootCalls tree.planStage (tree.session clock) calls
    tree.Inv (run.1.all (·.exception?.isNone)) run.2.stage ∧
      (tree.base run.2.stage).state = LifecycleState.afterAll .kUnopened run.1 ∧
      (tree.base run.2.stage).stats.rowsOut = run.1.countP (·.advanced) := by
  obtain ⟨hinv, hstate, hrows⟩ := rootCalls_inv tree.contract calls (tree.session clock)
    tree.inv_constructed
  have hbase := tree.base_constructed
  refine ⟨hinv, ?_, ?_⟩
  · rw [hstate, session, hbase]; rfl
  · rw [hrows, session, hbase, Nat.zero_add]

/-- **The run lemma.**  From any state that keeps the invariant, any calls keep to the automaton. -/
theorem documentedRun_of_inv (tree : PlanStageTree) : ∀ (calls : List RootCall) {calm : Bool}
    (session : Session tree.Object), tree.Inv calm session.stage →
    DocumentedRun (tree.base session.stage).state calls (rootCalls tree.planStage session calls).1
  | [], _, _, _ => trivial
  | call :: calls, calm, session, hinv => by
    have hstep := rootCall_step tree.contract session hinv call
    have hrest := documentedRun_of_inv tree calls (rootCall tree.planStage session call).2 hstep.inv
    rw [hstep.state] at hrest
    exact ⟨hstep.documented, hrest⟩

/-- **The lifecycle protocol.**  For any calls issued to the root of a fresh plan, and one more:
    the run keeps to the documented automaton (so `open()` succeeds at most once, and after an EOF
    every `getNext()` before a `close()` returns `kEof`) and closing again changes nothing; a call
    ends with a lifecycle error exactly when the root's state does not admit it, and then nothing
    has changed anywhere; the states of all stages fit together; and a `getNext()` that does not
    advance leaves the caller's row alone. -/
theorem lifecycle_protocol (tree : PlanStageTree) (clock : Clock) (calls : List RootCall)
    (call : RootCall) :
    let before := rootCalls tree.planStage (tree.session clock) calls
    let after := rootCall tree.planStage before.2 call
    let state := LifecycleState.afterAll .kUnopened before.1
    (DocumentedRun .kUnopened calls before.1 ∧ (tree.base before.2.stage).state = state ∧
      Documented state call after.1 ∧ before.1.countP (·.opens) ≤ 1 ∧
      (∀ n, LifecycleState.afterAll .kUnopened (before.1.take n) = .kEof →
        .closed ∉ before.1.drop n →
        ∀ result output, .pulled result output ∈ before.1.drop n → result = .ok .kEof) ∧
      (state = .kClosed → tree.planStage.close before.2.stage = before.2.stage)) ∧
    ((after.1.rejected ↔ ¬ call.admittedIn state) ∧
      (after.1.rejected → after.2.stage = before.2.stage)) ∧
    (tree.stages after.2.stage).IsChain
      (fun parent child => StatesFit parent.base.state child.base.state) ∧
    (∀ row result output, call = .getNext row → after.1 = .pulled result output →
      result ≠ .ok .kAdvanced → output = row) := by
  intro before after state
  obtain ⟨hinv, hstate, -⟩ := tree.rootCalls_session clock calls
  have hstep := rootCall_step tree.contract before.2 hinv call
  have hrun : DocumentedRun .kUnopened calls before.1 := by
    have h := tree.documentedRun_of_inv calls (tree.session clock) tree.inv_constructed
    rwa [session, base_constructed] at h
  have hdocumented : Documented state call after.1 := by
    rw [← show (tree.base before.2.stage).state = state from hstate]
    exact hstep.documented
  refine ⟨⟨hrun, hstate, hdocumented, hrun.opens_once, fun n heof hopen => ?_, fun hclosed => ?_⟩,
    ⟨?_, hstep.rejected⟩, ?_, ?_⟩
  · have hdrop := hrun.drop n
    rw [heof] at hdrop
    exact hdrop.eof_until_close hopen
  · exact tree.contract.closedAgain (hstate.trans hclosed)
  · clear_value state
    generalize after.1 = outcome at hdocumented
    cases hdocumented with
    | openOk => exact ⟨fun h => (by cases h), fun h => absurd rfl h⟩
    | openFails own => exact ⟨fun h => absurd h own, fun h => absurd rfl h⟩
    | openTwice state_ne code => exact ⟨fun _ => state_ne, fun _ => code⟩
    | advanced row output => exact ⟨fun h => (by cases h), fun h => absurd (.inl rfl) h⟩
    | eof row => exact ⟨fun h => (by cases h), fun h => absurd (.inl rfl) h⟩
    | getNextFails row own => exact ⟨fun h => absurd h own, fun h => absurd (.inl rfl) h⟩
    | eofAgain row => exact ⟨fun h => (by cases h), fun h => absurd (.inr rfl) h⟩
    | notOpen row notRunning code =>
      refine ⟨fun _ h => ?_, fun _ => code⟩
      rcases notRunning with rfl | rfl <;> rcases h with h | h <;> cases h
    | closed => exact ⟨fun h => (by cases h), fun h => absurd trivial h⟩
  · exact (tree.stages_ok hstep.inv).linked.imp fun _ _ hlink => hlink.states
  · rintro row result output rfl houtcome hnot
    rw [houtcome] at hdocumented
    generalize state = state at hdocumented
    cases hdocumented with
    | advanced => exact absurd rfl hnot
    | eof | getNextFails | eofAgain | notOpen => rfl

/-! ## Cleanup

  The guarded scope is left in three ways: `open()` throws, the loop throws, or the loop ends.  In
  the first the failing stage has rolled back what it had opened; in the others the guard closes
  the root, and closing goes down the chain. -/

/-- Where an exception of a plan can come from: a predicate, a comparison of two rows, or a
    projection. -/
inductive Raises : PlanStageTree → Exception → Prop where
  | predicate {child : PlanStageTree} {predicate : Expression} {e : Exception} (row : Row)
      (throws : predicate.test row = .error e) : Raises (.filterStage child predicate) e
  | projection {child : PlanStageTree} {columnIndices : List Nat} {e : Exception} (row : Row)
      (throws : ProjectStage.project columnIndices row = .error e) :
      Raises (.projectStage child columnIndices) e
  | sort {child : PlanStageTree} {comparator : RowComparator} {e : Exception} (a b : Row)
      (throws : comparator.call a b = .error e) : Raises (.sortStage child comparator) e
  | topK {child : PlanStageTree} {comparator : RowComparator} {k : Nat} {e : Exception} (a b : Row)
      (throws : comparator.call a b = .error e) : Raises (.topKStage child comparator k) e
  | underFilter {child : PlanStageTree} {e : Exception} (predicate : Expression) :
      Raises child e → Raises (.filterStage child predicate) e
  | underProject {child : PlanStageTree} {e : Exception} (columnIndices : List Nat) :
      Raises child e → Raises (.projectStage child columnIndices) e
  | underSort {child : PlanStageTree} {e : Exception} (comparator : RowComparator) :
      Raises child e → Raises (.sortStage child comparator) e
  | underLimit {child : PlanStageTree} {e : Exception} (limit : Nat) :
      Raises child e → Raises (.limitStage child limit) e
  | underTopK {child : PlanStageTree} {e : Exception} (comparator : RowComparator) (k : Nat) :
      Raises child e → Raises (.topKStage child comparator k) e

omit [StdLibrary] in
/-- A fold that throws throws at one of its elements. -/
theorem foldlM_error {α β ε : Type} {fill : β → α → Except ε β} : ∀ {xs : List α} {b : β} {e : ε},
    xs.foldlM fill b = .error e → ∃ b' x, fill b' x = .error e
  | [], _, _, h => nomatch h
  | x :: xs, b, e, h => by
    rw [List.foldlM_cons] at h
    cases hx : fill b x with
    | error e' =>
      rw [hx] at h
      exact ⟨b, x, hx.trans h⟩
    | ok b' =>
      rw [hx] at h
      exact foldlM_error h

/-- A blocking stage that fails to open: the child's feed failed, or a comparison did. -/
theorem block_error {fill : List Row → Row → Except Exception (List Row)}
    {comparator : RowComparator}
    (hfill : ∀ {buffer row e}, fill buffer row = .error e → ∃ a b, comparator.call a b = .error e)
    {opened : Opened} {e : Exception} (h : opened.block fill comparator = .error e) :
    opened.feed.finish = some e ∨ ∃ a b, comparator.call a b = .error e := by
  unfold Opened.block at h
  cases hfold : opened.feed.rows.foldlM fill [] with
  | error e' =>
    rw [hfold] at h
    obtain ⟨buffer, row, hfilled⟩ := foldlM_error hfold
    exact .inr (Except.error.inj h ▸ hfill hfilled)
  | ok buffer =>
    rw [hfold] at h
    cases hfinish : opened.feed.finish with
    | some e' => rw [hfinish] at h; exact .inl (by rw [Except.error.inj h])
    | none =>
      rw [hfinish] at h
      cases hsort : stdSort comparator.call buffer with
      | error e' =>
        simp only [hsort] at h
        obtain ⟨a, -, b, -, hcmp⟩ := rearrange_error hsort
        exact .inr ⟨a, b, hcmp.trans (by rw [Except.error.inj h])⟩
      | ok sorted => simp only [hsort] at h; cases h

/-- A blocking stage that opens ends its feed without an exception. -/
theorem block_finish {fill : List Row → Row → Except Exception (List Row)}
    {comparator : RowComparator} (opened : Opened) {opened' : Opened}
    (h : opened.block fill comparator = .ok opened') : opened'.feed.finish = none := by
  unfold Opened.block at h
  split at h
  · cases h
  · split at h
    · cases h
    · cases hsort : stdSort comparator.call _ with
      | error e => rw [hsort] at h; cases h
      | ok sorted =>
        rw [hsort] at h
        rw [← Except.ok.inj h]
        exact Feed.finish_ofList _ _

/-- The exceptions of a denotation: `open()` failing, or the feed ending with one. -/
def Fails (denoted : Except Exception Opened) (e : Exception) : Prop :=
  denoted = .error e ∨ ∃ opened, denoted = .ok opened ∧ opened.feed.finish = some e

omit [StdLibrary] in
/-- A streaming stage does not change whether its child opens. -/
theorem fails_map {denoted : Except Exception Opened} {f : Opened → Opened} {e : Exception}
    (h : Fails (denoted.map f) e) :
    denoted = .error e ∨ ∃ opened, denoted = .ok opened ∧ (f opened).feed.finish = some e := by
  rcases h with h | ⟨opened', hmap, hfinish⟩
  · cases denoted with
    | error e' => exact .inl h
    | ok opened => cases h
  · cases denoted with
    | error e' => cases hmap
    | ok opened =>
      obtain rfl := Except.ok.inj hmap
      exact .inr ⟨opened, rfl, hfinish⟩

/-- A blocking stage fails with its child, or with a comparison of its own. -/
theorem fails_block {fill : List Row → Row → Except Exception (List Row)}
    {comparator : RowComparator}
    (hfill : ∀ {buffer row e}, fill buffer row = .error e → ∃ a b, comparator.call a b = .error e)
    {denoted : Except Exception Opened} {e : Exception}
    (h : Fails (denoted.bind fun opened => opened.block fill comparator) e) :
    Fails denoted e ∨ ∃ a b, comparator.call a b = .error e := by
  cases denoted with
  | error e' =>
    rcases h with h | ⟨opened', h, -⟩
    · exact .inl (.inl h)
    · cases h
  | ok opened =>
    rcases h with h | ⟨opened', h, hfinish⟩
    · rcases block_error hfill h with hfinish | hcmp
      · exact .inl (.inr ⟨opened, rfl, hfinish⟩)
      · exact .inr hcmp
    · have hnone : opened'.feed.finish = none := block_finish opened h
      rw [hnone] at hfinish
      cases hfinish

/-- Every exception of a plan was raised by one of its stages; by induction on the plan. -/
theorem raises_of_fails : ∀ (tree : PlanStageTree) {e : Exception}, Fails tree.denote e → Raises tree e
  | collectionScanStage table, e, h => by
    rcases h with h | ⟨opened, h, hfinish⟩
    · cases h
    · obtain rfl := Except.ok.inj h
      rw [Feed.finish_scan] at hfinish
      cases hfinish
  | filterStage child predicate, e, h => by
    rcases fails_map h with h | ⟨opened, hopened, hfinish⟩
    · exact .underFilter predicate (child.raises_of_fails (.inl h))
    · rcases Feed.finish_filter hfinish with hfinish | ⟨row, htest⟩
      · exact .underFilter predicate (child.raises_of_fails (.inr ⟨opened, hopened, hfinish⟩))
      · exact .predicate row htest
  | projectStage child columnIndices, e, h => by
    rcases fails_map h with h | ⟨opened, hopened, hfinish⟩
    · exact .underProject columnIndices (child.raises_of_fails (.inl h))
    · rcases Feed.finish_mapRows hfinish with hfinish | ⟨row, hrow⟩
      · exact .underProject columnIndices (child.raises_of_fails (.inr ⟨opened, hopened, hfinish⟩))
      · exact .projection row hrow
  | limitStage child limit, e, h => by
    rcases fails_map h with h | ⟨opened, hopened, hfinish⟩
    · exact .underLimit limit (child.raises_of_fails (.inl h))
    · exact .underLimit limit
        (child.raises_of_fails (.inr ⟨opened, hopened, Feed.finish_limit hfinish⟩))
  | sortStage child comparator, e, h => by
    rcases fails_block (fun h => by cases h) h with h | ⟨a, b, hcmp⟩
    · exact .underSort comparator (child.raises_of_fails h)
    · exact .sort a b hcmp
  | topKStage child comparator k, e, h => by
    have hoffer : ∀ {buffer row e}, BoundedHeap.offer comparator.call k buffer row = .error e →
        ∃ a b, comparator.call a b = .error e := by
      intro buffer row e h
      obtain ⟨a, -, b, -, hcmp⟩ := BoundedHeap.offer_error h
      exact ⟨a, b, hcmp⟩
    rcases fails_block hoffer h with h | ⟨a, b, hcmp⟩
    · exact .underTopK comparator k (child.raises_of_fails h)
    · exact .topK a b hcmp

/-- Pulling keeps the invariant of a plan, also when it ends with an exception. -/
theorem pullRows_inv (tree : PlanStageTree) {calm : Bool} {s : tree.Object} (clock : Clock)
    (hinv : tree.Inv calm s) (hopen : (tree.base s).state = .kOpen) :
    tree.Inv false (pullRows tree.planStage clock s).stage := by
  refine whileAdvanced_rule tree.planStage collectRow
    (I := fun _ s _ => tree.Inv calm s ∧ (tree.base s).state = .kOpen)
    (Q := fun loop => tree.Inv false loop.stage) ?_ clock s [] {} ⟨hinv, hopen⟩
  rintro clock s rows row ⟨hinv, hopen⟩
  obtain ⟨-, hresult⟩ := tree.contract.next clock row hinv hopen
  generalize tree.planStage.getNext clock s row = call at hresult ⊢
  obtain ⟨result, output, s', clock'⟩ := call
  cases result with
  | error e => exact hresult.1
  | ok state =>
    cases state with
    | kEof => exact tree.contract.weaken hresult.1
    | kAdvanced => exact ⟨hresult.1, hresult.2.1⟩

/-- However the guarded scope is left, the root is closed. -/
theorem execute_closed (tree : PlanStageTree) (clock : Clock) :
    let done := execute tree.planStage clock tree.constructed
    tree.Inv false done.stage ∧ (tree.base done.stage).state = .kClosed := by
  obtain ⟨-, hresult⟩ := tree.contract.opened clock tree.inv_constructed
    (by rw [base_constructed])
  simp only [execute]
  generalize tree.planStage.open clock tree.constructed = call at hresult ⊢
  obtain ⟨result, s, clock'⟩ := call
  cases result with
  | error e => exact ⟨hresult.1, hresult.2.1⟩
  | ok u =>
    have hclosed := tree.contract.closed (tree.pullRows_inv clock' hresult.1 hresult.2.1)
    exact ⟨hclosed.inv, hclosed.state⟩

/-- **Cleanup.**  However a guarded execution ends, every stage is closed, its `onClose()` has run
    exactly once and its buffer is empty; and the outcome is the one `open()` or the result loop had
    — the one the plan denotes, whose exceptions all come from a predicate, a projection or a
    comparison of rows. -/
theorem execute_cleans_up (tree : PlanStageTree) (clock : Clock) :
    let done := execute tree.planStage clock tree.constructed
    let opened := tree.planStage.open clock tree.constructed
    let pulled := pullRows tree.planStage opened.clock opened.stage
    (∀ view ∈ tree.stages done.stage,
      view.base.state = .kClosed ∧ view.base.onCloseRuns = 1 ∧ view.buffer = []) ∧
    (∀ e, opened.result = .error e → done.result = .error e) ∧
    (∀ e, opened.result = .ok () → pulled.result = .error e → done.result = .error e) ∧
    done.result = tree.denote.bind (fun opened => opened.feed.collect) ∧
    ∀ e, done.result = .error e → Raises tree e := by
  intro done opened pulled
  have hdenote : done.result = tree.denote.bind (fun opened => opened.feed.collect) :=
    tree.execute_denote clock
  refine ⟨fun view hview => ?_, fun e h => ?_, fun e hok h => ?_, hdenote, fun e h => ?_⟩
  · obtain ⟨hinv, hclosed⟩ := tree.execute_closed clock
    have hok := tree.stages_ok hinv
    have hstate := hok.all_closed hclosed view hview
    obtain ⟨hbase, -, hreleased⟩ := hok.each view hview
    exact ⟨hstate, by rw [hbase.onCloseRuns, if_pos hstate], hreleased hstate⟩
  · exact congrArg Execution.result (execute_open_error h)
  · refine (congrArg Execution.result (execute_opened hok)).trans ?_
    exact congrArg (Except.map fun _ => pulled.locals) h
  · rw [hdenote] at h
    refine tree.raises_of_fails ?_
    cases htree : tree.denote with
    | error e' =>
      rw [htree] at h
      exact .inl (by rw [Except.error.inj h])
    | ok opened =>
      rw [htree] at h
      simp only [Except.bind, Feed.collect] at h
      cases hfinish : opened.feed.finish with
      | none => rw [hfinish] at h; cases h
      | some e' => exact .inr ⟨opened, rfl, by rw [hfinish] at h ⊢; rw [Except.error.inj h]⟩

/-! ## Statistics

  All counters of all stages at once, in any reachable state. -/

/-- **Conservation.**  After any calls on the root: a parent has counted in exactly the rows its
    child has counted out; no stage gives out more than it took in, is opened twice, or exceeds its
    bound (the table's rows, the limit, `k`); the root has counted out the rows its caller received;
    and unless a call has thrown, no stage below the root was called after its EOF. -/
theorem statistics_conserved (tree : PlanStageTree) (clock : Clock) (calls : List RootCall) :
    let run := rootCalls tree.planStage (tree.session clock) calls
    let views := tree.stages run.2.stage
    views.IsChain (fun parent child => parent.base.stats.rowsIn = child.base.stats.rowsOut) ∧
    (∀ view ∈ views, view.base.stats.rowsOut ≤ view.base.stats.rowsIn ∧
      view.base.stats.openCalls ≤ 1 ∧ view.tree.AtMost view.base.stats.rowsOut) ∧
    views.head?.map (·.base.stats.rowsOut) = some (run.1.countP (·.advanced)) ∧
    ((∀ outcome ∈ run.1, outcome.exception? = none) → ∀ view ∈ views.tail,
      view.base.stats.getNextCalls = view.base.stats.rowsOut ∨
      view.base.stats.getNextCalls = view.base.stats.rowsOut + 1) := by
  intro run views
  obtain ⟨hinv, -, hrows⟩ := tree.rootCalls_session clock calls
  obtain ⟨hroot, heach, hlinked⟩ := tree.stages_ok hinv
  refine ⟨hlinked.imp fun _ _ hlink => hlink.rows, fun view hview => ?_, ?_, fun hcalm => ?_⟩
  · obtain ⟨hbase, hmost, -⟩ := heach view hview
    exact ⟨hbase.rowsOut_le, hbase.openCalls, hmost⟩
  · have h := congrArg (Option.map fun base : PlanStageBase => base.stats.rowsOut) hroot
    rw [Option.map_map, Option.map_some, hrows] at h
    exact h
  · have hall : run.1.all (·.exception?.isNone) = true :=
      List.all_eq_true.mpr fun outcome hmem => by rw [hcalm outcome hmem]; rfl
    have hbalanced : ∀ (views : List StageView),
        views.IsChain (StageView.Linked (run.1.all (·.exception?.isNone))) →
        ∀ view ∈ views.tail, Balanced view.base := by
      intro views
      induction views with
      | nil => intro _ view hview; cases hview
      | cons first rest ih =>
        intro hchain view hview
        cases rest with
        | nil => cases hview
        | cons next rest =>
          obtain ⟨hlink, hrest⟩ := List.isChain_cons_cons.mp hchain
          rcases List.mem_cons.mp hview with rfl | hview
          · exact hlink.balanced hall
          · exact ih hrest view hview
    intro view hview
    have h := hbalanced views hlinked view hview
    unfold Balanced at h
    split at h
    · exact .inl h
    · exact .inl h
    · exact .inr h
    · exact h

end PlanStageTree

end QueryLume
