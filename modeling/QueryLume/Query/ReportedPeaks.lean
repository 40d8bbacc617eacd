/-
  What the blocking stages of a whole plan report as their peak memory.

  A blocking stage writes its counter once, while it is opened, and the calls that follow leave it
  alone wherever the stage is in the plan (`PlanStageTree.keepsPeaks`).  So a run that comes
  through reports, for every blocking stage from the root down, what the rows weigh that it held
  when it was open (`execute_peaks`): all rows of its child for a sort, what the heap retained of
  them for a top-k.

  The heap retains some of the rows the sort would have held, which is what the rewrite of a plan
  saves (`heldRows_rewrite`, `optimize_saves`).  The weight of rows is a parameter of the standard
  library (`StdLibrary`); all that is used of it is that fewer rows weigh no more.
-/
import QueryLume.Physical.PeakMemory
import QueryLume.Query.InputRead

namespace QueryLume

open BoundedHeap StdAlgorithms

/-! ## Stage objects

  What a call does to the members and to the counters that are not the wrapper's, in the form in
  which the sections below need it. -/

section Objects

variable {F : Type} (hooks : StageHooks F)

/-- A call of the wrapper leaves the members as they were or as its hook has left them, and so the
    counters that are not its own. -/
theorem getNext_leaves (clock : Clock) (this : StageObject F) (output : Row) :
    let call := hooks.planStage.getNext clock this output
    let hook := PlanStageBase.getNextHook hooks clock this output
    (call.stage.members = this.members ∧
        call.stage.base.stats.peakMemoryBytes = this.base.stats.peakMemoryBytes) ∨
      (call.stage.members = hook.stage.members ∧
        call.stage.base.stats.peakMemoryBytes = hook.stage.stats.peakMemoryBytes) := by
  intro call hook
  cases hstate : this.base.state with
  | kUnopened =>
    have hcall : call = _ := PlanStageBase.getNext_rejected (.inl hstate)
    rw [hcall]
    exact .inl ⟨rfl, rfl⟩
  | kClosed =>
    have hcall : call = _ := PlanStageBase.getNext_rejected (.inr hstate)
    rw [hcall]
    exact .inl ⟨rfl, rfl⟩
  | kEof =>
    have hcall : call = _ := PlanStageBase.getNext_eof hstate
    rw [hcall]
    exact .inl ⟨rfl, rfl⟩
  | kOpen =>
    obtain ⟨micros, herror, hok⟩ := PlanStageBase.getNext_admitted hooks clock output hstate
    cases hresult : hook.result with
    | error e =>
      have hcall : call = _ := herror e hresult
      rw [hcall]
      exact .inr ⟨rfl, rfl⟩
    | ok state =>
      have hcall : call = _ := hok state hresult
      rw [hcall]
      exact .inr ⟨rfl, rfl⟩

/-- Closing leaves the counters alone. -/
theorem close_leaves (this : StageObject F) :
    (hooks.planStage.close this).base.stats = this.base.stats ∧
      ((hooks.planStage.close this).members = this.members ∨
        (hooks.planStage.close this).members = hooks.onClose this.members) := by
  simp only [StageHooks.planStage, PlanStageBase.close]
  split
  · exact ⟨rfl, .inl rfl⟩
  · exact ⟨rfl, .inr rfl⟩

/-- A stage that opened has the members its hook has left, and the counters that are not its own. -/
theorem open_leaves {clock : Clock} {this : StageObject F} (hstate : this.base.state = .kUnopened)
    (hopen : (hooks.planStage.open clock this).result = .ok ()) :
    let hook := PlanStageBase.openHook hooks clock this
    hook.result = .ok () ∧ (hooks.planStage.open clock this).stage.members = hook.stage.members := by
  intro hook
  obtain ⟨micros, hok, herror⟩ := PlanStageBase.open_admitted hooks clock hstate
  cases hresult : hook.result with
  | error e =>
    have hcall : hooks.planStage.open clock this = _ := herror e hresult
    rw [hcall] at hopen
    cases hopen
  | ok u =>
    have hcall : hooks.planStage.open clock this = _ := hok u hresult
    rw [hcall]
    exact ⟨rfl, rfl⟩

end Objects

/-! ## Peaks that stay

  A peak is written while its stage is opened and never again.  So what is reported at the end of a
  run is what was reported when the plan had been opened. -/

section Keeps

variable {σ Own : Type} {child : PlanStage σ} {peaks : σ → List Nat}

/-- The calls after `open()` leave the reported peaks alone. -/
structure KeepsPeaks (iterator : PlanStage σ) (peaks : σ → List Nat) : Prop where
  getNext : ∀ clock s row, peaks (iterator.getNext clock s row).stage = peaks s
  close : ∀ s, peaks (iterator.close s) = peaks s

/-- So does a whole loop of them. -/
theorem whileAdvanced_peaks {β : Type} (h : KeepsPeaks child peaks) (body : β → Row → Flow β)
    (clock : Clock) (s : σ) (locals : β) (row : Row) :
    peaks (whileAdvanced child body clock s locals row).stage = peaks s := by
  refine whileAdvanced_rule child body (I := fun _ s' _ => peaks s' = peaks s)
    (Q := fun loop => peaks loop.stage = peaks s) ?_ clock s locals row rfl
  intro clock s' locals row hsame
  have hnext := h.getNext clock s' row
  unfold RoundOk
  generalize child.getNext clock s' row = call at hnext ⊢
  obtain ⟨result, output, s'', clock'⟩ := call
  have hstill : peaks s'' = peaks s := hnext.trans hsame
  cases result with
  | error e => exact hstill
  | ok state =>
    cases state with
    | kEof => exact hstill
    | kAdvanced =>
      simp only
      cases body locals output with
      | again locals row => exact hstill
      | done locals row => exact hstill
      | throw e locals => exact hstill

/-- The peaks below a streaming stage: it has none of its own. -/
def peaksBelow (peaks : σ → List Nat) (this : StageObject (ParentStage Own σ)) : List Nat :=
  peaks this.members.child

/-- The peaks from a blocking stage down. -/
def peaksFrom (peaks : σ → List Nat) (this : StageObject (ParentStage Own σ)) : List Nat :=
  this.base.stats.peakMemoryBytes :: peaks this.members.child

/-- A streaming stage reaches its child only by calls that leave the peaks alone. -/
theorem KeepsPeaks.streaming {hooks : StageHooks (ParentStage Own σ)} (h : KeepsPeaks child peaks)
    (hnext : ∀ clock this output, peaks (hooks.onGetNext clock this output).stage.members.child =
      peaks this.members.child)
    (hclose : ∀ members, (hooks.onClose members).child = child.close members.child) :
    KeepsPeaks hooks.planStage (peaksBelow peaks) where
  getNext clock this output := by
    show peaks _ = peaks _
    obtain ⟨hmembers, -⟩ | ⟨hmembers, -⟩ := getNext_leaves hooks clock this output
    · rw [hmembers]
    · rw [hmembers]
      exact hnext _ _ _
  close this := by
    show peaks _ = peaks _
    obtain ⟨-, hmembers | hmembers⟩ := close_leaves hooks this
    · rw [hmembers]
    · rw [hmembers, hclose, h.close]

/-- A blocking stage does not reach its child any more, nor its counter. -/
theorem KeepsPeaks.blocking [StdLibrary] (h : KeepsPeaks child peaks) (name : String)
    (body : Drain → Row → Flow Drain) (comparator : RowComparator) :
    KeepsPeaks (BlockingStage.hooks name child body comparator).planStage (peaksFrom peaks) where
  getNext clock this output := by
    have hhook : ∀ clock (this : Protected (ParentStage RowBuffer σ)) (output : Row),
        (BlockingStage.onGetNext clock this output).stage.members.child = this.members.child ∧
          (BlockingStage.onGetNext clock this output).stage.stats.peakMemoryBytes =
            this.stats.peakMemoryBytes := by
      intro clock this output
      rw [BlockingStage.onGetNext]
      split
      · exact ⟨rfl, rfl⟩
      · exact ⟨rfl, rfl⟩
    show _ :: peaks _ = _ :: peaks _
    obtain ⟨hmembers, hpeak⟩ | ⟨hmembers, hpeak⟩ := getNext_leaves
      (BlockingStage.hooks name child body comparator) clock this output
    · rw [hmembers, hpeak]
    · obtain ⟨hchild, hsame⟩ := hhook clock.tick
        { stats := { this.base.stats with getNextCalls := this.base.stats.getNextCalls + 1 }
          members := this.members } output
      rw [hmembers, hpeak]
      exact congr (congrArg List.cons hsame) (congrArg peaks hchild)
  close this := by
    show _ :: peaks _ = _ :: peaks _
    obtain ⟨hstats, hmembers | hmembers⟩ := close_leaves
      (BlockingStage.hooks name child body comparator) this
    · rw [hmembers, hstats]
    · rw [hmembers, hstats]
      exact congrArg (_ :: ·) (h.close this.members.child)

theorem FilterStage.keepsPeaks (h : KeepsPeaks child peaks) (predicate : Expression) :
    KeepsPeaks (FilterStage.hooks child predicate).planStage (peaksBelow peaks) :=
  h.streaming (fun clock this _ => whileAdvanced_peaks h _ clock this.members.child _ _)
    fun _ => rfl

theorem ProjectStage.keepsPeaks (h : KeepsPeaks child peaks) (columnIndices : List Nat) :
    KeepsPeaks (ProjectStage.hooks child columnIndices).planStage (peaksBelow peaks) := by
  refine h.streaming (fun clock this output => ?_) fun _ => rfl
  have hnext := h.getNext clock this.members.child {}
  simp only [ProjectStage.hooks, ProjectStage.onGetNext]
  generalize child.getNext clock this.members.child {} = call at hnext ⊢
  obtain ⟨result, row, s', clock'⟩ := call
  cases result with
  | error e => exact hnext
  | ok state =>
    cases state with
    | kEof => exact hnext
    | kAdvanced =>
      simp only
      cases ProjectStage.project columnIndices row with
      | error e => exact hnext
      | ok projected => exact hnext

theorem LimitStage.keepsPeaks (h : KeepsPeaks child peaks) (limit : Nat) :
    KeepsPeaks (LimitStage.hooks child limit).planStage (peaksBelow peaks) := by
  refine h.streaming (fun clock this output => ?_) fun _ => rfl
  have hnext := h.getNext clock this.members.child output
  simp only [LimitStage.hooks, LimitStage.onGetNext]
  split
  · rfl
  · generalize child.getNext clock this.members.child output = call at hnext ⊢
    obtain ⟨result, row, s', clock'⟩ := call
    cases result with
    | error e => exact hnext
    | ok state =>
      cases state with
      | kEof => exact hnext
      | kAdvanced => exact hnext

end Keeps

/-! ## Whole plans

  What the blocking stages of a plan hold once they are open is a function of the denotation of the
  plan, and what they report is its weight. -/

namespace PlanStageTree

/-- The peaks the blocking stages of a plan report, from the root down. -/
def reportedPeaks : (tree : PlanStageTree) → tree.Object → List Nat
  | collectionScanStage _ => fun _ => []
  | filterStage child _ => peaksBelow child.reportedPeaks
  | projectStage child _ => peaksBelow child.reportedPeaks
  | sortStage child _ => peaksFrom child.reportedPeaks
  | limitStage child _ => peaksBelow child.reportedPeaks
  | topKStage child _ _ => peaksFrom child.reportedPeaks

/-- Does the stage hold rows back? -/
def blocking : PlanStageTree → Bool
  | sortStage _ _ | topKStage _ _ _ => true
  | _ => false

/-- They are counters of the stages. -/
theorem reportedPeaks_stages : ∀ (tree : PlanStageTree) (this : tree.Object),
    ((tree.stages this).filter (·.tree.blocking)).map (·.base.stats.peakMemoryBytes) =
      tree.reportedPeaks this
  | collectionScanStage _, _ => rfl
  | filterStage child _, this | projectStage child _, this | limitStage child _, this =>
    child.reportedPeaks_stages (StageObject.members this).child
  | sortStage child _, this | topKStage child _ _, this =>
    congrArg (_ :: ·) (child.reportedPeaks_stages (StageObject.members this).child)

variable [StdLibrary]

/-- **Peaks stay.**  In every plan, by induction on it. -/
theorem keepsPeaks : ∀ tree : PlanStageTree, KeepsPeaks tree.planStage tree.reportedPeaks
  | collectionScanStage _ => ⟨fun _ _ _ => rfl, fun _ => rfl⟩
  | filterStage child predicate => FilterStage.keepsPeaks child.keepsPeaks predicate
  | projectStage child columnIndices => ProjectStage.keepsPeaks child.keepsPeaks columnIndices
  | sortStage child comparator => child.keepsPeaks.blocking "SortStage" SortStage.body comparator
  | limitStage child limit => LimitStage.keepsPeaks child.keepsPeaks limit
  | topKStage child comparator k =>
    child.keepsPeaks.blocking "TopKStage" (TopKStage.body comparator k) comparator

/-- The rows a plan gives out where it comes through. -/
def denotedRows (tree : PlanStageTree) : List Row :=
  match tree.denote with
  | .ok opened => opened.feed.rows
  | .error _ => []

/-- What the blocking stages of a plan hold once they are open, from the root down. -/
def heldRows : PlanStageTree → List (List Row)
  | collectionScanStage _ => []
  | filterStage child _ | projectStage child _ | limitStage child _ => child.heldRows
  | sortStage child _ => child.denotedRows :: child.heldRows
  | topKStage child comparator k =>
    (offerAll comparator.call k [] child.denotedRows).toOption.getD [] :: child.heldRows

/-- The peaks a plan reports once it is open are those of what it holds. -/
def OpensHolding (tree : PlanStageTree) : Prop :=
  ∀ clock, (tree.planStage.open clock tree.constructed).result = .ok () →
    tree.reportedPeaks (tree.planStage.open clock tree.constructed).stage =
      tree.heldRows.map approximateRowsBytes

/-- Opening a streaming stage opens its child. -/
theorem OpensHolding.streaming {child : PlanStageTree} (h : child.OpensHolding) {Own : Type}
    {own : Own} {hooks : StageHooks (ParentStage Own child.Object)}
    (hhooks : hooks.onOpen = openChild child.planStage) (clock : Clock)
    (hopen : (hooks.planStage.open clock
      { members := { child := child.constructed, own := own } }).result = .ok ()) :
    peaksBelow child.reportedPeaks (hooks.planStage.open clock
      { members := { child := child.constructed, own := own } }).stage =
        child.heldRows.map approximateRowsBytes := by
  obtain ⟨hresult, hmembers⟩ := open_leaves hooks rfl hopen
  show child.reportedPeaks _ = _
  rw [hmembers]
  simp only [PlanStageBase.openHook, hhooks, openChild] at hresult ⊢
  exact h clock.tick hresult

/-- The sort at the end of a drain leaves the child where the loop has left it. -/
theorem sortDrained_child {σ : Type} (comparator : RowComparator)
    (this : Protected (ParentStage RowBuffer σ)) (loop : LoopCall σ Drain) :
    (BlockingStage.sortDrained comparator this loop).stage.members.child = loop.stage := by
  rw [BlockingStage.sortDrained]
  split
  · rfl
  · split
    · rfl
    · rfl

/-- Opening a blocking stage drains its child. -/
theorem OpensHolding.blocking {child : PlanStageTree} (h : child.OpensHolding) {name : String}
    {body : Drain → Row → Flow Drain} {fill : List Row → Row → Except Exception (List Row)}
    {comparator : RowComparator} (hbody : FillsBy body fill) (clock : Clock)
    (hopen : ((BlockingStage.hooks name child.planStage body comparator).planStage.open clock
      { members := { child := child.constructed, own := {} } }).result = .ok ()) :
    ∃ buffer, child.denotedRows.foldlM fill [] = .ok buffer ∧
      peaksFrom child.reportedPeaks
        ((BlockingStage.hooks name child.planStage body comparator).planStage.open clock
          { members := { child := child.constructed, own := {} } }).stage =
        approximateRowsBytes buffer :: child.heldRows.map approximateRowsBytes := by
  -- the child came through, or the stage would not have opened
  have hopens : Opens (BlockingStage.hooks name child.planStage body comparator).planStage _ _ _ :=
    blocking_opens hbody comparator child.opens_denote
  obtain ⟨drained, hchild, hfinish⟩ : ∃ drained, child.denote = .ok drained ∧
      drained.feed.finish = none := by
    cases hdenote : child.denote.bind fun opened => opened.block fill comparator with
    | error e =>
      rw [hdenote] at hopens
      rw [hopens clock] at hopen
      cases hopen
    | ok opened =>
      obtain ⟨drained, hchild, hblock⟩ := Except.bind_eq_ok hdenote
      exact ⟨drained, hchild, (block_drained hblock).1⟩
  have hrows : child.denotedRows = drained.feed.rows := by rw [denotedRows, hchild]
  obtain ⟨buffer, sorted, hfill, hsort, hpeak⟩ :=
    blocking_open_reports hbody (child.delivers hchild hfinish) hopen
  have hperm : sorted.Perm buffer := stdSort_rearranges (RowComparator.before_strictWeak false)
    (fun _ _ _ hanswer => RowComparator.call_before hanswer) hsort
  refine ⟨buffer, hrows ▸ hfill, ?_⟩
  rw [peaksFrom, hpeak, approximateRowsBytes_perm hperm]
  refine congrArg (_ :: ·) ?_
  -- the drain loop and the sort leave the counters below alone
  obtain ⟨hresult, hmembers⟩ := open_leaves
    (BlockingStage.hooks name child.planStage body comparator) rfl hopen
  rw [hmembers]
  simp only [PlanStageBase.openHook, BlockingStage.hooks, BlockingStage.onOpen] at hresult ⊢
  have hbelow := h clock.tick
  cases hend : (child.planStage.open clock.tick child.constructed).result with
  | error e =>
    rw [hend] at hresult
    cases hresult
  | ok u =>
    rw [← hbelow hend, sortDrained_child]
    exact whileAdvanced_peaks child.keepsPeaks _ _ _ _ _

/-- **What is held is reported**, by every blocking stage of a plan that opens. -/
theorem opensHolding : ∀ tree : PlanStageTree, tree.OpensHolding
  | collectionScanStage _ => fun _ _ => rfl
  | filterStage child _ => fun clock hopen => child.opensHolding.streaming rfl clock hopen
  | projectStage child _ => fun clock hopen => child.opensHolding.streaming rfl clock hopen
  | limitStage child _ => fun clock hopen => child.opensHolding.streaming rfl clock hopen
  | sortStage child comparator => fun clock hopen => by
    obtain ⟨buffer, hfill, hpeaks⟩ :=
      child.opensHolding.blocking SortStage.body_fillsBy clock hopen
    rw [SortStage.foldlM_fill, List.nil_append] at hfill
    obtain rfl := Except.ok.inj hfill
    exact hpeaks
  | topKStage child comparator k => fun clock hopen => by
    obtain ⟨buffer, hfill, hpeaks⟩ :=
      child.opensHolding.blocking (TopKStage.body_fillsBy comparator k) clock hopen
    have hoffer : offerAll comparator.call k [] child.denotedRows = .ok buffer :=
      (foldlM_offer ..).symm.trans hfill
    rw [heldRows, hoffer]
    exact hpeaks

/-- **The run lemma.**  After a run that returned rows the plan still reports what it held. -/
theorem execute_peaks {tree : PlanStageTree} {clock : Clock} {rows : List Row}
    (h : (execute tree.planStage clock tree.constructed).result = .ok rows) :
    tree.reportedPeaks (execute tree.planStage clock tree.constructed).stage =
      tree.heldRows.map approximateRowsBytes := by
  cases hopened : (tree.planStage.open clock tree.constructed).result with
  | error e =>
    rw [execute_open_error hopened] at h
    cases h
  | ok u =>
    rw [execute_opened hopened, ← tree.opensHolding clock hopened]
    show tree.reportedPeaks (tree.planStage.close _) = _
    rw [tree.keepsPeaks.close]
    exact whileAdvanced_peaks tree.keepsPeaks _ _ _ _ _

end PlanStageTree

/-! ## Before and after the optimizer

  The rewrite puts a top-k in the place of a sort and of a limit; the other blocking stages keep
  theirs.  A heap of `k` rows holds some of the rows that the sort holds. -/

section Optimized

variable [StdLibrary]

/-- Some of the rows, each at most as often, weigh no more. -/
theorem approximateRowsBytes_subperm {held rows : List Row} (h : held.Subperm rows) :
    approximateRowsBytes held ≤ approximateRowsBytes rows := by
  obtain ⟨kept, hperm, hsub⟩ := h
  have hrest := hsub.exists_perm_append
  obtain ⟨rest, hsplit⟩ := hrest
  rw [← approximateRowsBytes_perm hperm, approximateRowsBytes_perm hsplit,
    approximateRowsBytes_eq_sum, approximateRowsBytes_eq_sum, List.map_append, List.sum_append]
  omega

/-- What a heap retains are some of the rows it was offered. -/
theorem offerAll_subperm {comparator : RowComparator} {k : Nat} {rows : List Row}
    (hdistinct : DistinctOrdinals rows) :
    ((offerAll comparator.call k [] rows).toOption.getD []).Subperm rows := by
  cases hoffer : offerAll comparator.call k [] rows with
  | error e => exact List.nil_subperm
  | ok buffer =>
    obtain ⟨hnodup, hsub, -⟩ := RowComparator.offerAll_retains_both hdistinct hoffer
    exact List.Nodup.subperm hnodup hsub

/-- A plan that comes through gives out the same rows after the rewrite. -/
theorem LogicalPlanNode.WellBound.denotedRows_rewrite {node : LogicalPlanNode} (h : node.WellBound)
    (htable : node.table.WellFormed) {opened : Opened}
    (hdenote : (buildPhysicalPlan node).denote = .ok opened) :
    (buildPhysicalPlan (SortLimitToTopKRule.rewrite node).1).denotedRows =
      (buildPhysicalPlan node).denotedRows := by
  rw [PlanStageTree.denotedRows, PlanStageTree.denotedRows, hdenote,
    h.denote_rewrite htable hdenote]

/-- **The rewrite, stage by stage.**  Every blocking stage of the rewritten plan holds some of the
    rows that its counterpart holds. -/
theorem LogicalPlanNode.WellBound.heldRows_rewrite {node : LogicalPlanNode} (h : node.WellBound)
    (htable : node.table.WellFormed) {opened : Opened}
    (hdenote : (buildPhysicalPlan node).denote = .ok opened) :
    List.Forall₂ List.Subperm (buildPhysicalPlan (SortLimitToTopKRule.rewrite node).1).heldRows
      (buildPhysicalPlan node).heldRows := by
  fun_induction SortLimitToTopKRule.rewrite node generalizing opened with
  | case1 grandchild columnIndex fieldName direction limit ih =>
    -- a limit directly over a sort
    obtain _ | _ | _ | _ | ⟨hsort⟩ | _ := h
    obtain _ | _ | _ | ⟨below, addresses⟩ | _ | _ := hsort
    simp only [buildPhysicalPlan, PlanStageTree.denote] at hdenote ⊢
    obtain ⟨sorted, hsorted, hlimit⟩ := Except.map_eq_ok hdenote
    obtain ⟨drained, hchild, hblock⟩ := Except.bind_eq_ok hsorted
    have hok := below.denote_feedOk htable drained hchild
    have hrows : (buildPhysicalPlan grandchild).denotedRows = drained.feed.rows := by
      rw [PlanStageTree.denotedRows, hchild]
    refine .cons ?_ (ih below htable hchild)
    rw [below.denotedRows_rewrite htable hchild, hrows]
    exact offerAll_subperm hok.distinct
  | case2 table => exact .nil
  | case3 child predicate ih =>
    cases h with
    | filter below =>
      obtain ⟨opened', hchild, -⟩ := Except.map_eq_ok hdenote
      exact ih below htable hchild
  | case4 child columnIndices fieldNames ih =>
    cases h with
    | project below =>
      obtain ⟨opened', hchild, -⟩ := Except.map_eq_ok hdenote
      exact ih below htable hchild
  | case5 child columnIndex fieldName direction ih =>
    cases h with
    | sort below =>
      obtain ⟨drained, hchild, -⟩ := Except.bind_eq_ok hdenote
      refine .cons ?_ (ih below htable hchild)
      rw [below.denotedRows_rewrite htable hchild]
  | case6 child limit hsort ih =>
    cases h with
    | limit below =>
      obtain ⟨opened', hchild, -⟩ := Except.map_eq_ok hdenote
      exact ih below htable hchild
  | case7 child columnIndex fieldName direction k ih =>
    cases h with
    | topK below =>
      obtain ⟨drained, hchild, -⟩ := Except.bind_eq_ok hdenote
      refine .cons ?_ (ih below htable hchild)
      rw [below.denotedRows_rewrite htable hchild]

/-- **Optimizing saves.**  Where the unoptimized plan of a pipeline comes through, the optimized one
    returns the same rows, has examined as many documents, and each of its blocking stages, from the
    root down, reports at most the memory of its counterpart. -/
theorem optimize_saves {table : Table} {pipeline : ParsedPipeline} {plan : LogicalPlanNode}
    {rows : List Row} (htable : table.WellFormed) (hbind : bindPipeline table pipeline = .ok plan)
    (clock clock' : Clock) :
    let full := buildPhysicalPlan plan
    let optimized := buildPhysicalPlan (Optimizer.optimize plan).1
    let run := execute full.planStage clock full.constructed
    let run' := execute optimized.planStage clock' optimized.constructed
    let peaks := fun views : List PlanStageTree.StageView =>
      (views.filter (·.tree.blocking)).map (·.base.stats.peakMemoryBytes)
    run.result = .ok rows →
    run'.result = .ok rows ∧
      (optimized.leafScan run'.stage).rowsOut = (full.leafScan run.stage).rowsOut ∧
      List.Forall₂ (· ≤ ·) (peaks (optimized.stages run'.stage)) (peaks (full.stages run.stage)) := by
  intro full optimized run run' peaks hrun
  obtain ⟨hbound, rfl⟩ := bindPipeline_wellBound hbind
  have hcollect : full.denote.bind (fun opened => opened.feed.collect) = .ok rows :=
    (full.execute_denote clock).symm.trans hrun
  obtain ⟨opened, hdenote, hrows⟩ := Except.bind_eq_ok hcollect
  have hdenote' : optimized.denote = .ok opened := hbound.denote_rewrite htable hdenote
  have hrun' : run'.result = .ok rows := by
    rw [← hrows]
    refine (optimized.execute_denote clock').trans ?_
    rw [hdenote']
    rfl
  refine ⟨hrun', ?_, ?_⟩
  · have hscanned : full.scanned run.stage = opened.feed.total :=
      PlanStageTree.scanned_execute hdenote
    have hscanned' : optimized.scanned run'.stage = opened.feed.total :=
      PlanStageTree.scanned_execute hdenote'
    exact hscanned'.trans hscanned.symm
  · simp only [peaks, PlanStageTree.reportedPeaks_stages]
    rw [PlanStageTree.execute_peaks hrun, PlanStageTree.execute_peaks hrun']
    refine List.forall₂_map_left_iff.mpr (List.forall₂_map_right_iff.mpr ?_)
    exact (hbound.heldRows_rewrite htable hdenote).imp fun _ _ => approximateRowsBytes_subperm

end Optimized

/-- The first of two rows, by sorting both or by a heap of one. -/
def samplePlan : LogicalPlanNode := .kLimit (.kSort (.kScan sampleTable) 0 "a" .kAscending) 1

/-- The same row; both documents are examined; and the heap held one row where the sort held two. -/
theorem optimize_saves_sample :
    letI := StdLibrary.reference
    let optimized := buildPhysicalPlan (Optimizer.optimize samplePlan).1
    let run := execute optimized.planStage Clock.still optimized.constructed
    let peaks := ((optimized.stages run.stage).filter (·.tree.blocking)).map
      (·.base.stats.peakMemoryBytes)
    run.result = .ok [{ ordinal := 1, values := [.int64 1] }] ∧
      (optimized.leafScan run.stage).rowsOut = 2 ∧
      peaks = [72] ∧ List.Forall₂ (· ≤ ·) peaks [144] := by
  obtain ⟨hrows, hexamined, hpeaks⟩ := @optimize_saves StdLibrary.reference sampleTable
    samplePipeline samplePlan _ sampleTable_wellFormed rfl Clock.still Clock.still rfl
  exact ⟨hrows, hexamined, rfl, hpeaks⟩

end QueryLume
