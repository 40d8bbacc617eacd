/-
  The rewrite rule computes its normal form in one pass.

  1. **The program** — `SortLimitToTopKRule.apply` is a loop that walks down the chain through the
     owning slot of the node it looks at, and replaces that node in place.  `Walk` is the state of
     the loop: the nodes above the slot, what the slot holds, and the flag; `Walk.step` is one turn
     of it.

  2. **The specification** — the chain is cut into `Segment`s, single nodes and adjacent limit/sort
     pairs, no pair being overlooked, and every pair becomes one top-k.  What is left has no pair
     in it, so the rule has nothing to do a second time.

  3. **The crux (`ends_rewrite`)** — what is above the slot is finished and never touched again,
     and the slot holds a part of the chain that was there at the beginning.  So the loop ends, and
     ends with what the recursion `rewrite` makes of the chain; a pair can only arise from the two
     nodes at the slot, because the node put there is a top-k, which is neither a limit nor a sort.

  A chain is handled as the list of its links over its scan (`links`), on which cutting and joining
  are list operations.
-/
import QueryLume.BoundPlan
import Mathlib.Data.List.Chain

namespace QueryLume

/-! ## Chains -/

/-- A node without its child: what a link of the chain contributes by itself. -/
inductive ChainLink where
  | filter (predicate : Expression)
  | project (columnIndices : List Nat) (fieldNames : List String)
  | sort (columnIndex : Nat) (fieldName : String) (direction : SortDirection)
  | limit (limit : Nat)
  | topK (columnIndex : Nat) (fieldName : String) (direction : SortDirection) (k : Nat)

/-- The node, put over a child. -/
def ChainLink.over : ChainLink → LogicalPlanNode → LogicalPlanNode
  | .filter predicate, child => .kFilter child predicate
  | .project columnIndices fieldNames, child => .kProject child columnIndices fieldNames
  | .sort columnIndex fieldName direction, child => .kSort child columnIndex fieldName direction
  | .limit count, child => .kLimit child count
  | .topK columnIndex fieldName direction k, child => .kTopK child columnIndex fieldName direction k

namespace LogicalPlanNode

/-- The nodes over the scan, root first.  With the scan they determine the chain. -/
def links : LogicalPlanNode → List ChainLink
  | .kScan _ => []
  | .kFilter child predicate => .filter predicate :: child.links
  | .kProject child columnIndices fieldNames => .project columnIndices fieldNames :: child.links
  | .kSort child columnIndex fieldName direction =>
    .sort columnIndex fieldName direction :: child.links
  | .kLimit child limit => .limit limit :: child.links
  | .kTopK child columnIndex fieldName direction k =>
    .topK columnIndex fieldName direction k :: child.links

/-- A limit directly over a sort: what the rule looks for. -/
def IsPair (node : LogicalPlanNode) : Prop :=
  ∃ grandchild columnIndex fieldName direction limit,
    node = .kLimit (.kSort grandchild columnIndex fieldName direction) limit

end LogicalPlanNode

/-! ## The loop -/

namespace SortLimitToTopKRule

/-- The slot below a node, `childSlot` of the source: the link it hangs on and what it holds.  A
    scan has none, and there the loop ends. -/
def childSlot : LogicalPlanNode → Option (ChainLink × LogicalPlanNode)
  | .kScan _ => none
  | .kFilter child predicate => some (.filter predicate, child)
  | .kProject child columnIndices fieldNames => some (.project columnIndices fieldNames, child)
  | .kSort child columnIndex fieldName direction =>
    some (.sort columnIndex fieldName direction, child)
  | .kLimit child limit => some (.limit limit, child)
  | .kTopK child columnIndex fieldName direction k =>
    some (.topK columnIndex fieldName direction k, child)

/-- The loop between two turns.  The source holds a pointer to the slot; here the chain is taken
    apart at the slot. -/
structure Walk where
  /-- The nodes above the slot, nearest first. -/
  above : List ChainLink
  /-- What the slot holds. -/
  current : LogicalPlanNode
  appliedAny : Bool

namespace Walk

/-- The whole tree, put together again: what is in the slot under the links above it. -/
def root (walk : Walk) : LogicalPlanNode :=
  walk.above.foldl (fun node link => link.over node) walk.current

/-- One turn of the loop.  A pair in the slot is replaced by the top-k and the slot moves below
    it; any other node stays and the slot moves to the child.  The loop ends where there is no
    slot below. -/
def step (walk : Walk) : Option Walk :=
  match walk.current with
  | .kLimit (.kSort grandchild columnIndex fieldName direction) limit =>
    some
      { above := .topK columnIndex fieldName direction limit :: walk.above
        current := grandchild
        appliedAny := true }
  | node =>
    (childSlot node).map fun slot =>
      { above := slot.1 :: walk.above, current := slot.2, appliedAny := walk.appliedAny }

/-- The loop from one state on ends in another. -/
inductive Ends : Walk → Walk → Prop where
  | done {walk : Walk} (last : walk.step = none) : Ends walk walk
  | turn {walk next final : Walk} (turn : walk.step = some next) (rest : Ends next final) :
      Ends walk final

/-- **The loop ends**, with the rewritten chain in the slot it started from. -/
theorem ends_rewrite (node : LogicalPlanNode) (above : List ChainLink) (appliedAny : Bool) :
    ∃ final, Ends ⟨above, node, appliedAny⟩ final ∧
      final.root = above.foldl (fun node link => link.over node) (rewrite node).1 ∧
      final.appliedAny = (appliedAny || (rewrite node).2) := by
  fun_induction rewrite node generalizing above appliedAny with
  | case1 grandchild columnIndex fieldName direction limit ih =>
    obtain ⟨final, hends, hroot, happlied⟩ :=
      ih (.topK columnIndex fieldName direction limit :: above) true
    refine ⟨final, .turn rfl hends, hroot, ?_⟩
    rw [happlied, Bool.true_or, Bool.or_true]
  | case2 table => exact ⟨_, .done rfl, rfl, (Bool.or_false _).symm⟩
  | case3 child predicate ih =>
    obtain ⟨final, hends, h⟩ := ih (.filter predicate :: above) appliedAny
    exact ⟨final, .turn rfl hends, h⟩
  | case4 child columnIndices fieldNames ih =>
    obtain ⟨final, hends, h⟩ := ih (.project columnIndices fieldNames :: above) appliedAny
    exact ⟨final, .turn rfl hends, h⟩
  | case5 child columnIndex fieldName direction ih =>
    obtain ⟨final, hends, h⟩ := ih (.sort columnIndex fieldName direction :: above) appliedAny
    exact ⟨final, .turn rfl hends, h⟩
  | case6 child limit hsort ih =>
    obtain ⟨final, hends, h⟩ := ih (.limit limit :: above) appliedAny
    refine ⟨final, .turn ?_ hends, h⟩
    -- the child is no sort, so the limit is passed by
    cases child with
    | kSort grandchild columnIndex fieldName direction =>
      exact absurd rfl (hsort grandchild columnIndex fieldName direction)
    | kScan | kFilter | kProject | kLimit | kTopK => rfl
  | case7 child columnIndex fieldName direction k ih =>
    obtain ⟨final, hends, h⟩ := ih (.topK columnIndex fieldName direction k :: above) appliedAny
    exact ⟨final, .turn rfl hends, h⟩

end Walk

/-! ## The normal form -/

/-- A piece of a chain: one node by itself, or a limit and the sort directly below it. -/
inductive Segment where
  | kept (link : ChainLink)
  | pair (limit columnIndex : Nat) (fieldName : String) (direction : SortDirection)

namespace Segment

/-- The piece in the original chain. -/
def before : Segment → List ChainLink
  | kept link => [link]
  | pair limit columnIndex fieldName direction =>
    [.limit limit, .sort columnIndex fieldName direction]

/-- What becomes of the piece: a single node stays, a pair becomes one top-k. -/
def after : Segment → ChainLink
  | kept link => link
  | pair limit columnIndex fieldName direction => .topK columnIndex fieldName direction limit

/-- Is the piece a limit with the sort below it? -/
def isPair : Segment → Bool
  | kept _ => false
  | pair _ _ _ _ => true

/-- Two neighbouring pieces that are a pair in disguise: a limit by itself over a sort by itself. -/
def Overlooked (upper lower : Segment) : Prop :=
  (∃ limit, upper = kept (.limit limit)) ∧
    ∃ columnIndex fieldName direction, lower = kept (.sort columnIndex fieldName direction)

end Segment

open Segment

/-- The chain, cut into its pieces from the root down, a pair taken whole wherever there is one. -/
def segments : LogicalPlanNode → List Segment
  | .kLimit (.kSort grandchild columnIndex fieldName direction) limit =>
    .pair limit columnIndex fieldName direction :: segments grandchild
  | .kScan _ => []
  | .kFilter child predicate => .kept (.filter predicate) :: segments child
  | .kProject child columnIndices fieldNames =>
    .kept (.project columnIndices fieldNames) :: segments child
  | .kSort child columnIndex fieldName direction =>
    .kept (.sort columnIndex fieldName direction) :: segments child
  | .kLimit child limit => .kept (.limit limit) :: segments child
  | .kTopK child columnIndex fieldName direction k =>
    .kept (.topK columnIndex fieldName direction k) :: segments child

/-- A limit that has no sort below it is a piece of its own. -/
theorem segments_limit {child : LogicalPlanNode} (limit : Nat)
    (h : ¬ (LogicalPlanNode.kLimit child limit).IsPair) :
    segments (.kLimit child limit) = .kept (.limit limit) :: segments child := by
  cases child with
  | kSort grandchild columnIndex fieldName direction =>
    exact absurd ⟨grandchild, columnIndex, fieldName, direction, limit, rfl⟩ h
  | kScan | kFilter | kProject | kLimit | kTopK => rfl

/-- A limit over something that is no sort. -/
theorem not_isPair {child : LogicalPlanNode} {limit : Nat}
    (h : ∀ grandchild columnIndex fieldName direction,
      child ≠ .kSort grandchild columnIndex fieldName direction) :
    ¬ (LogicalPlanNode.kLimit child limit).IsPair := by
  rintro ⟨grandchild, columnIndex, fieldName, direction, limit', heq⟩
  injection heq with hchild
  exact h grandchild columnIndex fieldName direction hchild

/-- The pieces, put together, are the chain. -/
theorem flatMap_before (node : LogicalPlanNode) : (segments node).flatMap before = node.links := by
  fun_induction segments node with
  | case1 grandchild columnIndex fieldName direction limit ih =>
    rw [List.flatMap_cons, ih]
    rfl
  | case2 table => rfl
  | case3 child predicate ih | case4 child columnIndices fieldNames ih
  | case5 child columnIndex fieldName direction ih | case6 child limit hsort ih
  | case7 child columnIndex fieldName direction k ih =>
    rw [List.flatMap_cons, ih]
    rfl

/-- The recursion replaces every pair and nothing else, keeps the table, and reports whether
    there was one. -/
theorem rewrite_links (node : LogicalPlanNode) :
    (rewrite node).1.links = (segments node).map after ∧ (rewrite node).1.table = node.table ∧
      (rewrite node).2 = (segments node).any isPair := by
  fun_induction rewrite node with
  | case1 grandchild columnIndex fieldName direction limit ih =>
    rw [segments, List.map_cons, List.any_cons]
    exact ⟨congrArg (_ :: ·) ih.1, ih.2.1, rfl⟩
  | case2 table => exact ⟨rfl, rfl, rfl⟩
  | case3 child predicate ih =>
    rw [segments, List.map_cons, List.any_cons]
    exact ⟨congrArg (_ :: ·) ih.1, ih.2⟩
  | case4 child columnIndices fieldNames ih =>
    rw [segments, List.map_cons, List.any_cons]
    exact ⟨congrArg (_ :: ·) ih.1, ih.2⟩
  | case5 child columnIndex fieldName direction ih =>
    rw [segments, List.map_cons, List.any_cons]
    exact ⟨congrArg (_ :: ·) ih.1, ih.2⟩
  | case6 child limit hsort ih =>
    rw [segments_limit limit (not_isPair hsort), List.map_cons, List.any_cons]
    exact ⟨congrArg (_ :: ·) ih.1, ih.2⟩
  | case7 child columnIndex fieldName direction k ih =>
    rw [segments, List.map_cons, List.any_cons]
    exact ⟨congrArg (_ :: ·) ih.1, ih.2⟩

/-- A chain of pieces that begins with a sort on its own is a chain with a sort at its root. -/
theorem sort_of_segments {node : LogicalPlanNode} {lower : Segment}
    (hhead : lower ∈ (segments node).head?) {columnIndex : Nat} {fieldName : String}
    {direction : SortDirection} (hlower : lower = kept (.sort columnIndex fieldName direction)) :
    ∃ child, node = .kSort child columnIndex fieldName direction := by
  subst hlower
  fun_cases segments node with
  | case5 child columnIndex' fieldName' direction' =>
    rw [segments, List.head?_cons, Option.mem_some_iff] at hhead
    injection hhead with hlink
    injection hlink with hindex hname hdirection
    rw [hindex, hname, hdirection]
    exact ⟨child, rfl⟩
  | case1 | case2 | case3 | case4 | case7 => simp [segments] at hhead
  | case6 child limit hsort => simp [segments_limit limit (not_isPair hsort)] at hhead

/-- **No pair is overlooked.** -/
theorem segments_complete (node : LogicalPlanNode) :
    (segments node).IsChain fun upper lower => ¬ Overlooked upper lower := by
  fun_induction segments node with
  | case1 grandchild columnIndex fieldName direction limit ih =>
    refine List.isChain_cons.mpr ⟨fun lower _ => ?_, ih⟩
    rintro ⟨⟨limit', h⟩, -⟩
    cases h
  | case2 table => exact List.isChain_nil
  | case3 child predicate ih | case4 child columnIndices fieldNames ih
  | case5 child columnIndex fieldName direction ih
  | case7 child columnIndex fieldName direction k ih =>
    refine List.isChain_cons.mpr ⟨fun lower _ => ?_, ih⟩
    rintro ⟨⟨limit', h⟩, -⟩
    cases h
  | case6 child limit hsort ih =>
    refine List.isChain_cons.mpr ⟨fun lower hlower => ?_, ih⟩
    rintro ⟨-, columnIndex, fieldName, direction, hkept⟩
    obtain ⟨grandchild, hchild⟩ := sort_of_segments hlower hkept
    exact hsort grandchild columnIndex fieldName direction hchild

/-- The rewritten plan ends in a sort only if the plan did. -/
theorem rewrite_sort {node child : LogicalPlanNode} {columnIndex : Nat} {fieldName : String}
    {direction : SortDirection}
    (h : (rewrite node).1 = .kSort child columnIndex fieldName direction) :
    ∃ child', node = .kSort child' columnIndex fieldName direction := by
  fun_cases rewrite node with
  | case5 child' columnIndex' fieldName' direction' =>
    rw [rewrite] at h
    injection h with _ hindex hname hdirection
    rw [hindex, hname, hdirection]
    exact ⟨child', rfl⟩
  | case1 | case2 | case3 | case4 | case7 => simp [rewrite] at h
  | case6 child' limit hsort => simp [rewrite] at h

/-- **No pair is left.** -/
theorem rewrite_normal {root node : LogicalPlanNode} (h : (rewrite root).1.Contains node) :
    ¬ node.IsPair := by
  fun_induction rewrite root with
  | case1 grandchild columnIndex fieldName direction limit ih =>
    cases h with
    | here => rintro ⟨_, _, _, _, _, heq⟩; cases heq
    | topK _ _ _ _ hbelow => exact ih hbelow
  | case2 table =>
    cases h with
    | here => rintro ⟨_, _, _, _, _, heq⟩; cases heq
  | case3 child predicate ih =>
    cases h with
    | here => rintro ⟨_, _, _, _, _, heq⟩; cases heq
    | filter _ hbelow => exact ih hbelow
  | case4 child columnIndices fieldNames ih =>
    cases h with
    | here => rintro ⟨_, _, _, _, _, heq⟩; cases heq
    | project _ _ hbelow => exact ih hbelow
  | case5 child columnIndex fieldName direction ih =>
    cases h with
    | here => rintro ⟨_, _, _, _, _, heq⟩; cases heq
    | sort _ _ _ hbelow => exact ih hbelow
  | case6 child limit hsort ih =>
    cases h with
    | here =>
      refine not_isPair fun grandchild columnIndex fieldName direction heq => ?_
      obtain ⟨child', hchild⟩ := rewrite_sort heq
      exact hsort child' columnIndex fieldName direction hchild
    | limit _ hbelow => exact ih hbelow
  | case7 child columnIndex fieldName direction k ih =>
    cases h with
    | here => rintro ⟨_, _, _, _, _, heq⟩; cases heq
    | topK _ _ _ _ hbelow => exact ih hbelow

/-- A chain without a pair is left as it is. -/
theorem rewrite_of_normal {root : LogicalPlanNode}
    (h : ∀ node, root.Contains node → ¬ node.IsPair) : rewrite root = (root, false) := by
  fun_induction rewrite root with
  | case1 grandchild columnIndex fieldName direction limit ih =>
    exact absurd ⟨grandchild, columnIndex, fieldName, direction, limit, rfl⟩ (h _ (.here _))
  | case2 table => rfl
  | case3 child predicate ih => rw [ih fun node hnode => h node (.filter _ hnode)]
  | case4 child columnIndices fieldNames ih => rw [ih fun node hnode => h node (.project _ _ hnode)]
  | case5 child columnIndex fieldName direction ih =>
    rw [ih fun node hnode => h node (.sort _ _ _ hnode)]
  | case6 child limit hsort ih => rw [ih fun node hnode => h node (.limit _ hnode)]
  | case7 child columnIndex fieldName direction k ih =>
    rw [ih fun node hnode => h node (.topK _ _ _ _ hnode)]

/-- The flag says whether there was a pair. -/
theorem rewrite_applied (root : LogicalPlanNode) :
    (rewrite root).2 = true ↔ ∃ node, root.Contains node ∧ node.IsPair := by
  constructor
  · intro happlied
    by_contra hnone
    have hnormal := rewrite_of_normal fun node hnode hpair => hnone ⟨node, hnode, hpair⟩
    rw [hnormal] at happlied
    cases happlied
  · rintro ⟨node, hnode, hpair⟩
    induction hnode with
    | here node =>
      obtain ⟨grandchild, columnIndex, fieldName, direction, limit, rfl⟩ := hpair
      rfl
    | filter predicate _ ih | project columnIndices fieldNames _ ih
    | sort columnIndex fieldName direction _ ih | topK columnIndex fieldName direction k _ ih =>
      exact ih hpair
    | @limit child node limit _ ih =>
      cases child with
      | kSort => rfl
      | kScan | kFilter | kProject | kLimit | kTopK => exact ih hpair

/-- **One pass computes the normal form.**  The loop ends, and what it leaves is the chain with
    every limit directly over a sort replaced, together with that sort, by a top-k with the
    parameters of the two: the original and the result are the same pieces before and after.  No
    such pair is left, the visible schema is the same, flag and trace entry say whether there was a
    pair, and a second application changes nothing and says so. -/
theorem apply_normalForm (root : LogicalPlanNode) (context : OptimizationContext) :
    let applied := apply root context
    (∃ final, Walk.Ends ⟨[], root, false⟩ final ∧ final.root = applied.1 ∧
      final.appliedAny = applied.2.2) ∧
    (∃ pieces : List Segment, root.links = pieces.flatMap before ∧
      applied.1.links = pieces.map after ∧
      pieces.IsChain (fun upper lower => ¬ Overlooked upper lower)) ∧
    applied.1.table = root.table ∧
    (∀ node, applied.1.Contains node → ¬ node.IsPair) ∧
    outputSchemaOf applied.1 = outputSchemaOf root ∧
    (applied.2.2 = true ↔ ∃ node, root.Contains node ∧ node.IsPair) ∧
    applied.2.1.trace = context.trace ++ [{ rule := "SortLimitToTopK", applied := applied.2.2 }] ∧
    ∀ later : OptimizationContext, apply applied.1 later =
      (applied.1,
        { trace := later.trace ++ [{ rule := "SortLimitToTopK", applied := false }] }, false) := by
  intro applied
  obtain ⟨final, hends, hroot, happlied⟩ := Walk.ends_rewrite root [] false
  rw [Bool.false_or] at happlied
  refine ⟨⟨final, hends, hroot, happlied⟩,
    ⟨segments root, (flatMap_before root).symm, (rewrite_links root).1, segments_complete root⟩,
    (rewrite_links root).2.1, fun node => rewrite_normal, outputSchemaOf_rewrite root,
    rewrite_applied root, rfl, fun later => ?_⟩
  have hagain : rewrite applied.1 = (applied.1, false) :=
    rewrite_of_normal fun node => rewrite_normal
  rw [apply, hagain]
  rfl

end SortLimitToTopKRule

end QueryLume
