/-
  The optimizer.

  It has one rule, `SortLimitToTopK` (`sort_limit_to_topk_rule.cpp`): a limit directly over a sort
  becomes one top-k node, wherever the pair stands in the chain.  The point is memory: a sort holds
  all rows of its input, a top-k only the `k` first ones seen so far.

  The C++ rule is a loop that walks down the chain through the owning pointer of the node it looks
  at and replaces nodes in place.  Here it is the recursion `rewrite`, which returns the new chain
  and whether anything changed; `NormalForm.lean` models the loop itself and shows that the two
  compute the same.  `optimize` runs the rules once each, in order, and records in the trace of the
  context whether a rule fired, which is what EXPLAIN shows under `rewrites`.
-/
import QueryLume.Logical

namespace QueryLume

/-- One line of the trace: which rule was tried, and whether it changed the plan.  A rule that
    found nothing to do is in the trace as well. -/
structure RewriteTraceEntry where
  rule : String
  applied : Bool
deriving DecidableEq

/-- What the rules write down as they go.  EXPLAIN shows it under `rewrites`. -/
structure OptimizationContext where
  trace : List RewriteTraceEntry := []
deriving DecidableEq

namespace SortLimitToTopKRule

/-- The name of the rule, as the trace has it. -/
def name : String := "SortLimitToTopK"

/-- The walk down the chain: the rewritten chain, and whether a pair was found.  A limit directly
    over a sort becomes a top-k with the column, the name and the direction of the sort and the
    count of the limit, over what was below the sort; the walk continues below the new node.
    Every other node stays, and the walk continues below it. -/
def rewrite : LogicalPlanNode → LogicalPlanNode × Bool
  | .kLimit (.kSort grandchild columnIndex fieldName direction) limit =>
    (.kTopK (rewrite grandchild).1 columnIndex fieldName direction limit, true)
  | .kScan table => (.kScan table, false)
  | .kFilter child predicate => (.kFilter (rewrite child).1 predicate, (rewrite child).2)
  | .kProject child columnIndices fieldNames =>
    (.kProject (rewrite child).1 columnIndices fieldNames, (rewrite child).2)
  | .kSort child columnIndex fieldName direction =>
    (.kSort (rewrite child).1 columnIndex fieldName direction, (rewrite child).2)
  | .kLimit child limit => (.kLimit (rewrite child).1 limit, (rewrite child).2)
  | .kTopK child columnIndex fieldName direction k =>
    (.kTopK (rewrite child).1 columnIndex fieldName direction k, (rewrite child).2)

/-- `SortLimitToTopKRule::apply`: the plan the rule leaves, the context with the rule's entry at
    the end of the trace, and whether the rule changed anything. -/
def apply (root : LogicalPlanNode) (context : OptimizationContext) :
    LogicalPlanNode × OptimizationContext × Bool :=
  let (root, appliedAny) := rewrite root
  (root, { trace := context.trace ++ [{ rule := name, applied := appliedAny }] }, appliedAny)

end SortLimitToTopKRule

namespace Optimizer

/-- The registered rules, as the constructor of `Optimizer` registers them: there is one. -/
def rules : List (LogicalPlanNode → OptimizationContext →
    LogicalPlanNode × OptimizationContext × Bool) :=
  [SortLimitToTopKRule.apply]

/-- `Optimizer::optimize`: every rule once, in the order of registration, each on the plan the
    one before left, from an empty context.  There is no second round. -/
def optimize (root : LogicalPlanNode) : LogicalPlanNode × OptimizationContext :=
  rules.foldl (fun (root, context) rule =>
    let (root, context, _) := rule root context
    (root, context)) (root, {})

end Optimizer

/-- The plan the optimizer leaves behind is the one its only rule makes. -/
theorem Optimizer.optimize_fst (root : LogicalPlanNode) :
    (Optimizer.optimize root).1 = (SortLimitToTopKRule.rewrite root).1 := rfl

/-- A rewrite never changes which fields a plan shows. -/
theorem outputSchemaOf_rewrite (root : LogicalPlanNode) :
    outputSchemaOf (SortLimitToTopKRule.rewrite root).1 = outputSchemaOf root := by
  fun_induction SortLimitToTopKRule.rewrite root with
  | case1 grandchild columnIndex fieldName direction limit ih => exact ih
  | case2 table => rfl
  | case3 child predicate ih => exact ih
  | case4 child columnIndices fieldNames ih => rfl
  | case5 child columnIndex fieldName direction ih => exact ih
  | case6 child limit hsort ih => exact ih
  | case7 child columnIndex fieldName direction k ih => exact ih

end QueryLume
