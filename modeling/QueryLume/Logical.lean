/-
  Logical plans: WHAT a query computes.

  A plan is a chain of nodes over one scan (`logical_plan_node.h`).  Every node but the scan owns
  its child, and the top-k node is made by the optimizer only.  A node stores the column indices it
  was resolved to, in the output schema of its child, next to the names it displays: the names are
  never looked up again, so a plan is right only if every index still points at its name.  That is
  the invariant `WellBound` of `BoundPlan.lean`; this module has only the data.

  `outputSchemaOf` is the schema of the rows a node yields.  It depends on projections alone: every
  other node passes on the schema of its child.
-/
import QueryLume.Expression

namespace QueryLume

/-- `enum class SortDirection`.  EXPLAIN writes it as 1 and -1. -/
inductive SortDirection where
  | kAscending
  | kDescending
deriving DecidableEq, Repr

/-- The six kinds of nodes, one constructor for each class of the source.  An index is a column
    of the schema of the child, a name is kept for display.  A child is never missing here; in
    the source the owning pointer is empty only while a rule moves the node. -/
inductive LogicalPlanNode where
  | kScan (table : Table)
  | kFilter (child : LogicalPlanNode) (predicate : Expression)
  | kProject (child : LogicalPlanNode) (columnIndices : List Nat) (fieldNames : List String)
  | kSort (child : LogicalPlanNode) (columnIndex : Nat) (fieldName : String)
      (direction : SortDirection)
  | kLimit (child : LogicalPlanNode) (limit : Nat)
  /-- Produced by the optimizer only. -/
  | kTopK (child : LogicalPlanNode) (columnIndex : Nat) (fieldName : String)
      (direction : SortDirection) (k : Nat)

/-- The schema of the rows a node yields: the field list of the nearest projection below, or else
    the schema of the scanned table.  It labels the columns of the result. -/
def outputSchemaOf : LogicalPlanNode → Schema
  | .kScan table => table.schema
  | .kProject _ _ fieldNames => { fields := fieldNames }
  | .kFilter child _ => outputSchemaOf child
  | .kSort child _ _ _ => outputSchemaOf child
  | .kLimit child _ => outputSchemaOf child
  | .kTopK child _ _ _ _ => outputSchemaOf child

namespace LogicalPlanNode

/-- `node` itself or a node below it.  A property of every node of a plan is stated over it. -/
inductive Contains : LogicalPlanNode → LogicalPlanNode → Prop where
  | here (node : LogicalPlanNode) : Contains node node
  | filter {child node : LogicalPlanNode} (predicate : Expression) :
      Contains child node → Contains (.kFilter child predicate) node
  | project {child node : LogicalPlanNode} (columnIndices : List Nat) (fieldNames : List String) :
      Contains child node → Contains (.kProject child columnIndices fieldNames) node
  | sort {child node : LogicalPlanNode} (columnIndex : Nat) (fieldName : String)
      (direction : SortDirection) :
      Contains child node → Contains (.kSort child columnIndex fieldName direction) node
  | limit {child node : LogicalPlanNode} (limit : Nat) :
      Contains child node → Contains (.kLimit child limit) node
  | topK {child node : LogicalPlanNode} (columnIndex : Nat) (fieldName : String)
      (direction : SortDirection) (k : Nat) :
      Contains child node → Contains (.kTopK child columnIndex fieldName direction k) node

end LogicalPlanNode

end QueryLume
