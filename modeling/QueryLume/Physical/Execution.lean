/-
  Executing a plan: open it, pull every row out of it, and close it on every way out.

  `execute` is the scope of a `PlanStageExecutionGuard`, as `runPipeline` and
  `explainAnalyzePipeline` write it: construct the guard, which opens the plan; pull rows until the
  end; and let the destructor close the plan, also when an exception passes through.  When the
  guard's constructor throws there is no guard to destroy, so nothing is closed from outside; a
  failed `open()` has to have cleaned up by itself.

  Against the denotation an execution returns the rows of the feed, or throws the exception that
  ends it (`execute_denote`), and the leaf has then given out what the marks of the feed say
  (`scanned_execute`).
-/
import QueryLume.Physical.Refinement

namespace QueryLume

section Execute

variable {σ : Type}

/-- What is left when the scope has been left. -/
structure Execution (σ : Type) where
  result : Except Exception (List Row)
  stage : σ
  clock : Clock

/-- `rows.push_back(std::move(row))`. -/
def collectRow (rows : List Row) (row : Row) : Flow (List Row) :=
  .again (rows ++ [row]) row.movedFrom

/-- The result loop: pull the root until it ends, and collect the rows. -/
def pullRows (root : PlanStage σ) (clock : Clock) (stage : σ) : LoopCall σ (List Row) :=
  whileAdvanced root collectRow clock stage [] {}

/-- The guarded scope.  If `open()` throws there is nothing to close from outside; otherwise the
    root is closed once the loop has ended, whether by the end or by an exception. -/
def execute (root : PlanStage σ) (clock : Clock) (stage : σ) : Execution σ :=
  let opened := root.open clock stage
  match opened.result with
  | .error e => { result := .error e, stage := opened.stage, clock := opened.clock }
  | .ok () =>
    let loop := pullRows root opened.clock opened.stage
    { result := loop.result.map fun _ => loop.locals
      stage := root.close loop.stage
      clock := loop.clock }

/-- The guard does not come into being when `open()` throws. -/
theorem execute_open_error {root : PlanStage σ} {clock : Clock} {stage : σ} {e : Exception}
    (h : (root.open clock stage).result = .error e) :
    execute root clock stage =
      { result := .error e, stage := (root.open clock stage).stage
        clock := (root.open clock stage).clock } := by
  simp only [execute, h]

/-- Otherwise its destructor closes the root, however the result loop ends. -/
theorem execute_opened {root : PlanStage σ} {clock : Clock} {stage : σ}
    (h : (root.open clock stage).result = .ok ()) :
    let opened := root.open clock stage
    let loop := pullRows root opened.clock opened.stage
    execute root clock stage =
      { result := loop.result.map fun _ => loop.locals, stage := root.close loop.stage
        clock := loop.clock } := by
  simp only [execute, h]

/-! ## Against feeds -/

variable {root : PlanStage σ} {scanned : σ → Nat}

/-- How the result loop over a feed ends. -/
def Feed.outcome (feed : RowFeed) : Except Exception StageState :=
  match feed.finish with
  | none => .ok .kEof
  | some e => .error e

/-- The result loop gets exactly the rows of the feed, and ends as the feed does. -/
theorem pullRows_feed (clock : Clock) {feed : RowFeed} {s : σ} (hfeed : Emits root scanned feed s) :
    (pullRows root clock s).locals = feed.rows ∧ (pullRows root clock s).result = Feed.outcome feed ∧
      scanned (pullRows root clock s).stage = feed.total := by
  refine whileAdvanced_rule root collectRow
    (I := fun _ s' rows => ∃ rest, Emits root scanned rest s' ∧ rows ++ rest.rows = feed.rows ∧
      rest.finish = feed.finish ∧ rest.total = feed.total)
    (Q := fun loop => loop.locals = feed.rows ∧ loop.result = Feed.outcome feed ∧
      scanned loop.stage = feed.total) ?_ clock s [] {} ⟨feed, hfeed, rfl, rfl, rfl⟩
  rintro clock s' rows row ⟨rest, hrest, hrows, hfinish, htotal⟩
  have hnext := emits_iff.mp hrest clock row
  generalize root.getNext clock s' row = call at hnext ⊢
  obtain ⟨result, output, s'', clock'⟩ := call
  cases rest with
  | stop finish mark =>
    rw [Feed.rows, List.append_nil] at hrows
    cases finish with
    | none =>
      obtain ⟨rfl, rfl⟩ := hnext
      exact ⟨hrows, by rw [Feed.outcome, ← hfinish]; rfl, htotal⟩
    | some e =>
      obtain ⟨rfl, rfl⟩ := hnext
      exact ⟨hrows, by rw [Feed.outcome, ← hfinish]; rfl, htotal⟩
  | row r mark rest =>
    obtain ⟨rfl, rfl, rfl, hleft⟩ := hnext
    refine ⟨rest, hleft, ?_, hfinish, htotal⟩
    rw [← hrows, Feed.rows, List.append_assoc, List.singleton_append]

/-- What executing a plan returns, from its denotation. -/
theorem execute_result {denoted : Except Exception Opened} {s : σ} (clock : Clock)
    (hopens : Opens root scanned s denoted) :
    (execute root clock s).result = denoted.bind fun opened => opened.feed.collect := by
  cases denoted with
  | error e =>
    have h : (root.open clock s).result = .error e := hopens clock
    simp only [execute, h, Except.bind]
  | ok opened =>
    obtain ⟨hresult, -, hfeed⟩ := hopens clock
    obtain ⟨hrows, hend, -⟩ := pullRows_feed (root.open clock s).clock hfeed
    simp only [execute, hresult, hrows, hend, Except.bind, Feed.collect, Feed.outcome]
    cases opened.feed.finish <;> rfl

/-- A hook that leaves the mark alone closes without moving it. -/
theorem scannedBy_close {F : Type} (hooks : StageHooks F) (sc : Nat → F → Nat)
    (honClose : ∀ rowsOut members, sc rowsOut (hooks.onClose members) = sc rowsOut members)
    (this : StageObject F) : scannedBy sc (hooks.planStage.close this) = scannedBy sc this := by
  simp only [StageHooks.planStage, PlanStageBase.close]
  split
  · rfl
  · exact honClose _ _

theorem childScanned_close {Own : Type} {child : PlanStage σ}
    (hooks : StageHooks (ParentStage Own σ))
    (honClose : ∀ members, (hooks.onClose members).child = child.close members.child)
    (hchild : ∀ s, scanned (child.close s) = scanned s) (this : StageObject (ParentStage Own σ)) :
    childScanned scanned (hooks.planStage.close this) = childScanned scanned this :=
  scannedBy_close hooks _ (fun _ members => by rw [honClose, hchild]) this

end Execute

/-! ## Whole plans -/

namespace PlanStageTree

variable [StdLibrary]

/-- Closing a plan reads nothing. -/
theorem scanned_close : ∀ (tree : PlanStageTree) (this : tree.Object),
    tree.scanned (tree.planStage.close this) = tree.scanned this
  | .collectionScanStage table, this =>
    scannedBy_close (CollectionScanStage.hooks table) (fun rowsOut _ => rowsOut)
      (fun _ _ => rfl) this
  | .filterStage child predicate, this =>
    childScanned_close (FilterStage.hooks child.planStage predicate) (fun _ => rfl)
      child.scanned_close this
  | .projectStage child columnIndices, this =>
    childScanned_close (ProjectStage.hooks child.planStage columnIndices) (fun _ => rfl)
      child.scanned_close this
  | .sortStage child comparator, this =>
    childScanned_close (SortStage.hooks child.planStage comparator) (fun _ => rfl)
      child.scanned_close this
  | .limitStage child limit, this =>
    childScanned_close (LimitStage.hooks child.planStage limit) (fun _ => rfl)
      child.scanned_close this
  | .topKStage child comparator k, this =>
    childScanned_close (TopKStage.hooks child.planStage comparator k) (fun _ => rfl)
      child.scanned_close this

/-- The result of running a freshly built plan.  The clock has no say in it. -/
theorem execute_denote (tree : PlanStageTree) (clock : Clock) :
    (execute tree.planStage clock tree.constructed).result =
      tree.denote.bind fun opened => opened.feed.collect :=
  execute_result clock tree.opens_denote

/-- How far the scan got when a run has returned. -/
theorem scanned_execute {tree : PlanStageTree} {clock : Clock} {opened : Opened}
    (hdenote : tree.denote = .ok opened) :
    tree.scanned (execute tree.planStage clock tree.constructed).stage = opened.feed.total := by
  have hopens := tree.opens_denote
  rw [hdenote] at hopens
  obtain ⟨hresult, -, hfeed⟩ := hopens clock
  obtain ⟨-, -, hscanned⟩ := pullRows_feed
    (tree.planStage.open clock tree.constructed).clock hfeed
  rw [execute]
  simp only [hresult]
  rw [scanned_close]
  exact hscanned

end PlanStageTree

end QueryLume
