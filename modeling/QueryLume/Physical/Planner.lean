/-
  Physical planning: which stage runs each logical node (`physical_planner.cpp`).

  A physical plan is a chain of stage objects, each owning its child.  Three things are kept apart
  that are one in C++:

  * `PlanStageTree` is what the constructors were given (a table, a predicate, column indices, a
    comparator, a limit); it never changes during a run;
  * `Object` is the type of the chain of objects, which depends on the tree, and `constructed` the
    chain as built;
  * `planStage` is the iterator of the root, the interface a caller sees.

  `stages` lists a chain of objects from the root down, for what is said about each stage alike.
-/
import QueryLume.Physical.Stages

namespace QueryLume

/-- The constructors of the stages, with their arguments.  Nothing in it changes while a plan
    runs. -/
inductive PlanStageTree where
  | collectionScanStage (table : Table)
  | filterStage (child : PlanStageTree) (predicate : Expression)
  | projectStage (child : PlanStageTree) (columnIndices : List Nat)
  | sortStage (child : PlanStageTree) (comparator : RowComparator)
  | limitStage (child : PlanStageTree) (limit : Nat)
  | topKStage (child : PlanStageTree) (comparator : RowComparator) (k : Nat)

/-- `buildPhysicalPlan`, the switch over the node kinds: each node becomes the stage of its kind
    over the stage of its child.  Names are dropped, and the columns of a sort go into its
    comparator. -/
def buildPhysicalPlan : LogicalPlanNode → PlanStageTree
  | .kScan table => .collectionScanStage table
  | .kFilter child predicate => .filterStage (buildPhysicalPlan child) predicate
  | .kProject child columnIndices _ => .projectStage (buildPhysicalPlan child) columnIndices
  | .kSort child columnIndex _ direction =>
    .sortStage (buildPhysicalPlan child) { columnIndex, direction }
  | .kLimit child limit => .limitStage (buildPhysicalPlan child) limit
  | .kTopK child columnIndex _ direction k =>
    .topKStage (buildPhysicalPlan child) { columnIndex, direction } k

namespace PlanStageTree

/-- The stage objects, root first: each parent owns its child. -/
def Object : PlanStageTree → Type
  | collectionScanStage _ => StageObject CollectionScanStage
  | filterStage child _ => StageObject (FilterStage child.Object)
  | projectStage child _ => StageObject (ProjectStage child.Object)
  | sortStage child _ => StageObject (SortStage child.Object)
  | limitStage child _ => StageObject (LimitStage child.Object)
  | topKStage child _ _ => StageObject (TopKStage child.Object)

/-- The objects right after construction. -/
def constructed : (tree : PlanStageTree) → tree.Object
  | collectionScanStage _ => { members := {} }
  | filterStage child _ => { members := { child := child.constructed, own := () } }
  | projectStage child _ => { members := { child := child.constructed, own := () } }
  | sortStage child _ => { members := { child := child.constructed, own := {} } }
  | limitStage child _ => { members := { child := child.constructed, own := {} } }
  | topKStage child _ _ => { members := { child := child.constructed, own := {} } }

/-- The pull iterator of the root, over the iterator of its child. -/
def planStage [StdLibrary] : (tree : PlanStageTree) → PlanStage tree.Object
  | collectionScanStage table => (CollectionScanStage.hooks table).planStage
  | filterStage child predicate => (FilterStage.hooks child.planStage predicate).planStage
  | projectStage child columnIndices => (ProjectStage.hooks child.planStage columnIndices).planStage
  | sortStage child comparator => (SortStage.hooks child.planStage comparator).planStage
  | limitStage child limit => (LimitStage.hooks child.planStage limit).planStage
  | topKStage child comparator k => (TopKStage.hooks child.planStage comparator k).planStage

/-- `stageName()` of each class. -/
def stageName : PlanStageTree → String
  | collectionScanStage _ => "CollectionScanStage"
  | filterStage _ _ => "FilterStage"
  | projectStage _ _ => "ProjectStage"
  | sortStage _ _ => "SortStage"
  | limitStage _ _ => "LimitStage"
  | topKStage _ _ _ => "TopKStage"

/-- The shared members of the root object. -/
def base : (tree : PlanStageTree) → tree.Object → PlanStageBase
  | collectionScanStage _, this => StageObject.base this
  | filterStage _ _, this => StageObject.base this
  | projectStage _ _, this => StageObject.base this
  | sortStage _ _, this => StageObject.base this
  | limitStage _ _, this => StageObject.base this
  | topKStage _ _ _, this => StageObject.base this

/-- One stage of a plan, seen from outside: what it was built from, the members every stage has,
    and the rows it buffers. -/
structure StageView where
  tree : PlanStageTree
  base : PlanStageBase
  buffer : List Row

/-- The stages of a plan, following `child()` from the root down to the scan. -/
def stages : (tree : PlanStageTree) → tree.Object → List StageView
  | collectionScanStage table, this =>
    [{ tree := .collectionScanStage table, base := StageObject.base this, buffer := [] }]
  | filterStage child predicate, this =>
    { tree := .filterStage child predicate, base := StageObject.base this, buffer := [] } ::
      child.stages (StageObject.members this).child
  | projectStage child columnIndices, this =>
    { tree := .projectStage child columnIndices, base := StageObject.base this, buffer := [] } ::
      child.stages (StageObject.members this).child
  | sortStage child comparator, this =>
    { tree := .sortStage child comparator, base := StageObject.base this
      buffer := (StageObject.members this).own.buffer } ::
      child.stages (StageObject.members this).child
  | limitStage child limit, this =>
    { tree := .limitStage child limit, base := StageObject.base this, buffer := [] } ::
      child.stages (StageObject.members this).child
  | topKStage child comparator k, this =>
    { tree := .topKStage child comparator k, base := StageObject.base this
      buffer := (StageObject.members this).own.buffer } ::
      child.stages (StageObject.members this).child

/-- The counters of the leaf scan (`leaf_scan_out`). -/
def leafScan : (tree : PlanStageTree) → tree.Object → StageStats
  | collectionScanStage _, this => (StageObject.base this).stats
  | filterStage child _, this => child.leafScan (StageObject.members this).child
  | projectStage child _, this => child.leafScan (StageObject.members this).child
  | sortStage child _, this => child.leafScan (StageObject.members this).child
  | limitStage child _, this => child.leafScan (StageObject.members this).child
  | topKStage child _ _, this => child.leafScan (StageObject.members this).child

end PlanStageTree

end QueryLume
