/-
  The six stages, as hooks over the interface of their child.

  * `CollectionScanStage` — the leaf: the rows of a table, in order.
  * `FilterStage`, `ProjectStage`, `LimitStage` — streaming: a call pulls what it needs and no
    more.  A filter pulls until a row passes, a projection pulls one row and moves the cells it
    keeps, a limit pulls nothing once it is full.
  * `SortStage`, `TopKStage` — blocking: `onOpen` drains the child into a buffer (`drain`, with the
    stage's own loop body), sorts it, and `onGetNext` moves the rows out one by one.  A sort
    appends every row; a top-k keeps a heap of at most `k` rows, pushing below `k` and replacing
    the last row of the order when a smaller one comes.

  A row that is moved leaves `Row.movedFrom` behind; a cell that is moved leaves `none`, and taking
  it a second time has no meaning.  Access to cells and to buffers is checked or unchecked as in
  the source, so an index out of bounds would be undefined behaviour in the model too.

  The counters are written where the source writes them: `rows_in` in the loops, `rows_out` by the
  wrapper, and the peak of a buffer once, after the loop.
-/
import QueryLume.Physical.MemoryAccounting
import QueryLume.Physical.PlanStageBase
import QueryLume.Physical.RowComparator
import QueryLume.Foundation.BoundedHeap

namespace QueryLume

open StdAlgorithms

/-! ## The leaf -/

/-- The members of the leaf: where it stands in the table. -/
structure CollectionScanStage where
  nextIndex : Nat := 0
deriving DecidableEq

namespace CollectionScanStage

/-- `CollectionScanStage::onOpen`: start at the first row. -/
def onOpen (clock : Clock) (this : Protected CollectionScanStage) :
    OpenCall (Protected CollectionScanStage) :=
  { result := .ok (), stage := { this with members := { nextIndex := 0 } }, clock }

/-- `CollectionScanStage::onGetNext`: copy out a row and go on.  The table keeps its rows,
    because other plans read it too. -/
def onGetNext (table : Table) (clock : Clock) (this : Protected CollectionScanStage)
    (output : Row) : NextCall (Protected CollectionScanStage) :=
  match table.rows[this.members.nextIndex]? with
  | none => { result := .ok .kEof, output, stage := this, clock }
  | some row =>
    { result := .ok .kAdvanced, output := row
      stage :=
        { stats := { this.stats with
            rowsIn := this.stats.rowsIn + 1, rowsOut := this.stats.rowsOut + 1 }
          members := { nextIndex := this.members.nextIndex + 1 } }
      clock }

/-- The table is shared with other plans, so the stage only points at it, and closing has nothing
    to release. -/
def hooks (table : Table) : StageHooks CollectionScanStage where
  stageName := "CollectionScanStage"
  onOpen := onOpen
  onGetNext := onGetNext table
  onClose members := members
  bound members := table.rows.length - members.nextIndex
  bound_onGetNext clock this output h := by
    unfold onGetNext at h ⊢
    cases hrow : table.rows[this.members.nextIndex]? with
    | none => rw [hrow] at h; cases h
    | some row =>
      have hlt := (List.getElem?_eq_some_iff.mp hrow).1
      simp only
      omega

end CollectionScanStage

/-! ## Stages with a child

  They own the object of their child and call it through its interface.  What follows are the
  classes, each with the measure that bounds how often it can still advance. -/

/-- The members of a stage that owns a child: the object of the child, and what the stage keeps
    for itself. -/
structure ParentStage (Own σ : Type) where
  child : σ
  own : Own

section Parents

variable {σ Own : Type}

/-- `child_->open()`, the child being a member of `this`. -/
def openChild (child : PlanStage σ) (clock : Clock) (this : Protected (ParentStage Own σ)) :
    OpenCall (Protected (ParentStage Own σ)) :=
  let call := child.open clock this.members.child
  { result := call.result
    stage := { this with members := { this.members with child := call.stage } }
    clock := call.clock }

/-! ## Filter -/

/-- A filter has no members but its child. -/
abbrev FilterStage (σ : Type) := ParentStage Unit σ

namespace FilterStage

/-- The loop body: count the candidate, and leave with it if the predicate accepts it.  A candidate
    whose predicate throws has been counted. -/
def body (predicate : Expression) (stats : StageStats) (candidate : Row) : Flow StageStats :=
  let stats := { stats with rowsIn := stats.rowsIn + 1 }
  match predicate.test candidate with
  | .error e => .throw e stats
  | .ok true => .done { stats with rowsOut := stats.rowsOut + 1 } candidate
  | .ok false => .again stats candidate

/-- `FilterStage::onGetNext`: pull until a row passes.  The caller's row is written only when one
    does. -/
def onGetNext (child : PlanStage σ) (predicate : Expression) (clock : Clock)
    (this : Protected (FilterStage σ)) (output : Row) : NextCall (Protected (FilterStage σ)) :=
  let loop := whileAdvanced child (body predicate) clock this.members.child this.stats {}
  { result := loop.result
    output := if loop.result = .ok .kAdvanced then loop.row else output
    stage := { stats := loop.locals, members := { this.members with child := loop.stage } }
    clock := loop.clock }

/-- A loop over a child never advances more often than the child. -/
theorem bound_body (child : PlanStage σ) (predicate : Expression) (clock : Clock) (stage : σ)
    (stats : StageStats) (row : Row)
    (h : (whileAdvanced child (body predicate) clock stage stats row).result = .ok .kAdvanced) :
    child.bound (whileAdvanced child (body predicate) clock stage stats row).stage <
      child.bound stage := by
  refine whileAdvanced_rule _ _ (I := fun _ s _ => child.bound s ≤ child.bound stage)
    (Q := fun loop => loop.result = .ok .kAdvanced → child.bound loop.stage < child.bound stage)
    (fun clock s stats row hI => ?_) clock stage stats row (Nat.le_refl _) h
  have hbound := child.bound_getNext clock s row
  generalize child.getNext clock s row = call at hbound
  obtain ⟨result, output, s', clock'⟩ := call
  cases result with
  | error e => intro h; cases h
  | ok state =>
    cases state with
    | kEof => intro h; cases h
    | kAdvanced =>
      have hlt : child.bound s' < child.bound s := hbound rfl
      simp only [RoundOk, body]
      cases predicate.test output with
      | error e => intro h; cases h
      | ok accepted =>
        cases accepted with
        | true => exact fun _ => Nat.lt_of_lt_of_le hlt hI
        | false => exact Nat.le_of_lt (Nat.lt_of_lt_of_le hlt hI)

/-- The hooks of a filter. -/
def hooks (child : PlanStage σ) (predicate : Expression) : StageHooks (FilterStage σ) where
  stageName := "FilterStage"
  onOpen := openChild child
  onGetNext := onGetNext child predicate
  onClose members := { members with child := child.close members.child }
  bound members := child.bound members.child
  bound_onGetNext _ _ _ h := bound_body child predicate _ _ _ _ h

end FilterStage

/-! ## Project -/

/-- Neither has a projection. -/
abbrev ProjectStage (σ : Type) := ParentStage Unit σ

namespace ProjectStage

/-- `push_back(std::move(input.values[index]))`, index by index; a cell that has been moved out is
    `none` from then on. -/
def moveCells (cells : List (Option Value)) : List Nat → Except Exception (List Value)
  | [] => .ok []
  | index :: indices =>
    match cells[index]? with
    | some (some value) =>
      match moveCells (cells.set index none) indices with
      | .error e => .error e
      | .ok values => .ok (value :: values)
    | _ => .error .undefinedBehavior

/-- The row a projection builds from its input: the cells at the indices, in their order, under the
    ordinal of the input. -/
def project (columnIndices : List Nat) (input : Row) : Except Exception Row :=
  (moveCells (input.values.map some) columnIndices).map fun values =>
    { ordinal := input.ordinal, values }

/-- `ProjectStage::onGetNext`: pull a row into a local and project it.  The caller's row is written
    only when both have succeeded. -/
def onGetNext (child : PlanStage σ) (columnIndices : List Nat) (clock : Clock)
    (this : Protected (ProjectStage σ)) (output : Row) : NextCall (Protected (ProjectStage σ)) :=
  let call := child.getNext clock this.members.child {}
  let members := { this.members with child := call.stage }
  match call.result with
  | .error e => { result := .error e, output, stage := { this with members }, clock := call.clock }
  | .ok .kEof => { result := .ok .kEof, output, stage := { this with members }, clock := call.clock }
  | .ok .kAdvanced =>
    let stats := { this.stats with rowsIn := this.stats.rowsIn + 1 }
    match project columnIndices call.output with
    | .error e => { result := .error e, output, stage := { stats, members }, clock := call.clock }
    | .ok projected =>
      { result := .ok .kAdvanced, output := projected
        stage := { stats := { stats with rowsOut := stats.rowsOut + 1 }, members }
        clock := call.clock }

/-- The hooks of a projection. -/
def hooks (child : PlanStage σ) (columnIndices : List Nat) : StageHooks (ProjectStage σ) where
  stageName := "ProjectStage"
  onOpen := openChild child
  onGetNext := onGetNext child columnIndices
  onClose members := { members with child := child.close members.child }
  bound members := child.bound members.child
  bound_onGetNext clock this output h := by
    have hbound := child.bound_getNext clock this.members.child {}
    unfold onGetNext at h ⊢
    generalize child.getNext clock this.members.child {} = call at h hbound
    obtain ⟨result, row, s', clock'⟩ := call
    cases result with
    | error e => cases h
    | ok state =>
      cases state with
      | kEof => cases h
      | kAdvanced =>
        simp only at h ⊢
        cases hrow : project columnIndices row with
        | error e => rw [hrow] at h; cases h
        | ok projected => exact hbound rfl

end ProjectStage

/-! ## Limit -/

/-- How many rows a limit has given out. -/
structure Emitted where
  emitted : Nat := 0
deriving DecidableEq

/-- A limit counts. -/
abbrev LimitStage (σ : Type) := ParentStage Emitted σ

namespace LimitStage

/-- `LimitStage::onGetNext`.  At the limit the child is not asked any more, so with a limit of zero
    it is never asked; it has been opened all the same. -/
def onGetNext (child : PlanStage σ) (limit : Nat) (clock : Clock)
    (this : Protected (LimitStage σ)) (output : Row) : NextCall (Protected (LimitStage σ)) :=
  if limit ≤ this.members.own.emitted then { result := .ok .kEof, output, stage := this, clock }
  else
    -- the child writes straight into the caller's row
    let call := child.getNext clock this.members.child output
    let members := { this.members with child := call.stage }
    match call.result with
    | .error e =>
      { result := .error e, output := call.output, stage := { this with members }
        clock := call.clock }
    | .ok .kEof =>
      { result := .ok .kEof, output := call.output, stage := { this with members }
        clock := call.clock }
    | .ok .kAdvanced =>
      { result := .ok .kAdvanced, output := call.output
        stage :=
          { stats := { this.stats with
              rowsIn := this.stats.rowsIn + 1, rowsOut := this.stats.rowsOut + 1 }
            members := { members with own := { emitted := this.members.own.emitted + 1 } } }
        clock := call.clock }

/-- The hooks of a limit. -/
def hooks (child : PlanStage σ) (limit : Nat) : StageHooks (LimitStage σ) where
  stageName := "LimitStage"
  onOpen := openChild child
  onGetNext := onGetNext child limit
  onClose members := { members with child := child.close members.child }
  bound members := child.bound members.child
  bound_onGetNext clock this output h := by
    have hbound := child.bound_getNext clock this.members.child output
    unfold onGetNext at h ⊢
    by_cases hfull : limit ≤ this.members.own.emitted
    · rw [if_pos hfull] at h; cases h
    · rw [if_neg hfull] at h ⊢
      generalize child.getNext clock this.members.child output = call at h hbound
      obtain ⟨result, row, s', clock'⟩ := call
      cases result with
      | error e => cases h
      | ok state =>
        cases state with
        | kEof => cases h
        | kAdvanced => exact hbound rfl

end LimitStage

/-! ## The blocking stages

  The two classes share everything but the body of the drain loop, in the source by having the same
  text, here by having the same definitions. -/

/-- The row buffer of a blocking stage; the rows before `nextIndex` have been moved out. -/
structure RowBuffer where
  buffer : List Row := []
  nextIndex : Nat := 0
deriving DecidableEq

/-- A sort holds a buffer. -/
abbrev SortStage (σ : Type) := ParentStage RowBuffer σ
/-- So does a top-k. -/
abbrev TopKStage (σ : Type) := ParentStage RowBuffer σ

/-- The local state of a drain loop: the counters and the buffer. -/
structure Drain where
  stats : StageStats
  buffer : List Row

namespace BlockingStage

/-- The stage after its drain loop, with the counters and the buffer of `drain`. -/
def leave (this : Protected (ParentStage RowBuffer σ)) (stage : σ) (drain : Drain) :
    Protected (ParentStage RowBuffer σ) :=
  { stats := drain.stats
    members := { child := stage, own := { this.members.own with buffer := drain.buffer } } }

/-- The end of `onOpen`: sort what the loop has drained, and record the size of the buffer, once.
    If the loop or the sort throws, the record is not written. -/
def sortDrained [StdLibrary] (comparator : RowComparator)
    (this : Protected (ParentStage RowBuffer σ)) (loop : LoopCall σ Drain) :
    OpenCall (Protected (ParentStage RowBuffer σ)) :=
  match loop.result with
  | .error e =>
    { result := .error e, stage := leave this loop.stage loop.locals, clock := loop.clock }
  | .ok _ =>
    match stdSort comparator.call loop.locals.buffer with
    -- the sort leaves the rows in no particular order; they are about to be released
    | .error e =>
      { result := .error e, stage := leave this loop.stage loop.locals, clock := loop.clock }
    | .ok sorted =>
      { result := .ok ()
        stage := leave this loop.stage
          { stats := { loop.locals.stats with peakMemoryBytes := approximateRowsBytes sorted }
            buffer := sorted }
        clock := loop.clock }

/-- `onOpen` of both blocking stages, which differ in the loop body that fills the buffer: open the
    child, drain it, sort.  The child stays open; the parent's `onClose` closes it. -/
def onOpen [StdLibrary] (child : PlanStage σ) (body : Drain → Row → Flow Drain)
    (comparator : RowComparator) (clock : Clock) (this : Protected (ParentStage RowBuffer σ)) :
    OpenCall (Protected (ParentStage RowBuffer σ)) :=
  let opened := child.open clock this.members.child
  match opened.result with
  | .error e =>
    { result := .error e
      stage := { this with members := { this.members with child := opened.stage } }
      clock := opened.clock }
  | .ok () =>
    sortDrained comparator this
      (whileAdvanced child body opened.clock opened.stage
        { stats := this.stats, buffer := this.members.own.buffer } {})

/-- `onGetNext` of both: move the next row out of the buffer.  The place it had stays, with an empty
    row in it. -/
def onGetNext (clock : Clock) (this : Protected (ParentStage RowBuffer σ)) (output : Row) :
    NextCall (Protected (ParentStage RowBuffer σ)) :=
  let own := this.members.own
  match own.buffer[own.nextIndex]? with
  | none => { result := .ok .kEof, output, stage := this, clock }
  | some row =>
    { result := .ok .kAdvanced, output := row
      stage :=
        { stats := { this.stats with rowsOut := this.stats.rowsOut + 1 }
          members := { this.members with
            own :=
              { buffer := own.buffer.set own.nextIndex row.movedFrom
                nextIndex := own.nextIndex + 1 } } }
      clock }

/-- `onClose` of both: close the child and release the buffer.  The index into it stays where it
    was; a closed stage is never pulled again. -/
def onClose (child : PlanStage σ) (members : ParentStage RowBuffer σ) : ParentStage RowBuffer σ :=
  { child := child.close members.child, own := { members.own with buffer := [] } }

/-- The hooks the two have in common. -/
def hooks [StdLibrary] (stageName : String) (child : PlanStage σ) (body : Drain → Row → Flow Drain)
    (comparator : RowComparator) : StageHooks (ParentStage RowBuffer σ) where
  stageName := stageName
  onOpen := onOpen child body comparator
  onGetNext := onGetNext
  onClose := onClose child
  bound members := members.own.buffer.length - members.own.nextIndex
  bound_onGetNext clock this output h := by
    simp only [onGetNext] at h ⊢
    cases hrow : this.members.own.buffer[this.members.own.nextIndex]? with
    | none => rw [hrow] at h; cases h
    | some row =>
      have hlt := (List.getElem?_eq_some_iff.mp hrow).1
      simp only [List.length_set]
      omega

end BlockingStage

/-! ## Sort -/

namespace SortStage

/-- The loop body of `SortStage::onOpen`: count the row and append it to the buffer, all of it. -/
def body (drain : Drain) (row : Row) : Flow Drain :=
  .again
    { stats := { drain.stats with rowsIn := drain.stats.rowsIn + 1 }
      buffer := drain.buffer ++ [row] }
    row.movedFrom

/-- The hooks of a sort. -/
def hooks [StdLibrary] (child : PlanStage σ) (comparator : RowComparator) :
    StageHooks (SortStage σ) :=
  BlockingStage.hooks "SortStage" child body comparator

end SortStage

/-! ## TopK -/

namespace TopKStage

variable [StdLibrary]

/-- The loop body of `TopKStage::onOpen`: count the row and keep at most `k` rows, in a heap whose
    front is the worst of them.  Below `k` the row is pushed; at `k` it replaces the front if it
    comes before it, and is dropped otherwise.  With `k = 0` every row is dropped, without a
    comparison. -/
def body (comparator : RowComparator) (k : Nat) (drain : Drain) (row : Row) : Flow Drain :=
  let drain : Drain := { drain with
    stats := { drain.stats with rowsIn := drain.stats.rowsIn + 1 } }
  if k = 0 then .again drain row
  else if drain.buffer.length < k then
    match pushHeap comparator.call (drain.buffer ++ [row]) with
    | .error e => .throw e drain
    | .ok buffer => .again { drain with buffer } row.movedFrom
  else
    match drain.buffer with
    -- not reached: the buffer holds `k` rows and `k` is not 0
    | [] => .again drain row
    | front :: rest =>
      match comparator.call row front with
      | .error e => .throw e drain
      | .ok false => .again drain row
      | .ok true =>
        match popHeap comparator.call (front :: rest) with
        | .error e => .throw e drain
        | .ok popped =>
          -- `buffer_.back() = std::move(row)`
          match pushHeap comparator.call (popped.dropLast ++ [row]) with
          | .error e => .throw e drain
          | .ok buffer => .again { drain with buffer } row.movedFrom

/-- The hooks of a top-k. -/
def hooks (child : PlanStage σ) (comparator : RowComparator) (k : Nat) :
    StageHooks (TopKStage σ) :=
  BlockingStage.hooks "TopKStage" child (body comparator k) comparator

end TopKStage

end Parents

end QueryLume
