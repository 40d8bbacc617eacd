/-
  How much of the input a query reads.

  1. **Lazy plans** — below the first sort a plan is a chain of lazy stages, and `Streams` ties its
     feed to the reference, input prefix by input prefix: what has come out after `n` rows is what
     the stages make of the first `n` rows.  A limit that is full stops the reading, and no sooner
     and no later than that.

  2. **Blocking stages** — a sort or a top-k drains whatever there is below it (`Drains`), also
     under a limit of 0; above it nothing more is read.  So what the whole plan reads is what the
     part below the lowest blocking stage reads (`optimized_reads`).

  3. **Figures** — the documents an EXPLAIN ANALYZE reports as examined are the rows the scan has
     given out, and no stage of a plan has taken in more (`rowsIn_le_scanned`).

  `input_read` puts the three together.
-/
import QueryLume.Foundation.Checked
import QueryLume.Foundation.FeedProgress
import QueryLume.Physical.Guarantees
import QueryLume.Query.Semantics
import Mathlib.Order.Bounds.Defs

namespace QueryLume

open LogicalPlanNode

/-! ## Limits in the reference

  When is reading over?  The reference semantics knows no reading: it maps whole lists.  So the
  question is asked of the lists: `LimitReached n` says that, evaluated on the first `n` documents,
  some limit among the stages emits as many as it may. -/

/-- The stages that become blocking ones. -/
def ParsedStage.isSort : ParsedStage → Bool
  | .kSort _ => true
  | _ => false

namespace Reference

/-- Only the first `n` documents. -/
def View.first (n : Nat) (view : View) : View := { view with documents := view.documents.take n }

/-- `next` is what a limit hands on, and as much as it may. -/
def Fills : ParsedStage → View → Prop
  | .kLimit parsed, next => next.documents.length = parsed.countRaw.toInt.toNat
  | _, _ => False

/-- Evaluating the stages one after another, some `$limit(k)` among them emits `k` documents. -/
def LimitReached : List ParsedStage → View → Prop
  | [], _ => False
  | parsed :: stages, view =>
    ∃ next, stage parsed view = .ok next ∧ (Fills parsed next ∨ LimitReached stages next)

theorem evaluate_concat (parsed : ParsedStage) : ∀ (stages : List ParsedStage) (view : View),
    evaluate (stages ++ [parsed]) view = (evaluate stages view).bind (stage parsed)
  | [], view => by
    rw [List.nil_append, evaluate, evaluate]
    cases hstage : stage parsed view with
    | error e => exact hstage.symm
    | ok next => exact hstage.symm
  | first :: stages, view => by
    rw [List.cons_append, evaluate, evaluate]
    cases stage first view with
    | error e => rfl
    | ok next => exact evaluate_concat parsed stages next

/-- One more stage: either a limit was full before, or the new stage is one. -/
theorem limitReached_concat {parsed : ParsedStage} : ∀ {stages : List ParsedStage} {view : View},
    LimitReached (stages ++ [parsed]) view ↔ LimitReached stages view ∨
      ∃ between next, evaluate stages view = .ok between ∧ stage parsed between = .ok next ∧
        Fills parsed next
  | [], view => by
    constructor
    · rintro ⟨next, hstage, hfills | hrest⟩
      · exact .inr ⟨view, next, rfl, hstage, hfills⟩
      · cases hrest
    · rintro (hnone | ⟨between, next, heval, hstage, hfills⟩)
      · cases hnone
      · obtain rfl := Except.ok.inj heval
        exact ⟨next, hstage, .inl hfills⟩
  | first :: stages, view => by
    constructor
    · rintro ⟨next, hstage, hfills | hrest⟩
      · exact .inl ⟨next, hstage, .inl hfills⟩
      · rcases limitReached_concat.mp hrest with hbefore | ⟨between, last, heval, hlast, hfills⟩
        · exact .inl ⟨next, hstage, .inr hbefore⟩
        · refine .inr ⟨between, last, ?_, hlast, hfills⟩
          rw [evaluate, hstage]
          exact heval
    · rintro (⟨next, hstage, hfills | hrest⟩ | ⟨between, last, heval, hlast, hfills⟩)
      · exact ⟨next, hstage, .inl hfills⟩
      · exact ⟨next, hstage, .inr (limitReached_concat.mpr (.inl hrest))⟩
      · rw [evaluate] at heval
        cases hstage : stage first view with
        | error e => rw [hstage] at heval; cases heval
        | ok next =>
          rw [hstage] at heval
          have hrest := limitReached_concat.mpr (.inr ⟨between, last, heval, hlast, hfills⟩)
          exact ⟨next, hstage, .inr hrest⟩

end Reference

open Reference

/-! ## Lazy plans against the reference

  A plan without a sort reads one document after another and passes on what it makes of them.
  `Streams` ties the feed of such a plan to the reference on every prefix of the input, and a limit
  is where the feed can stop before the input does. -/

section Streaming

variable [StdLibrary]

/-- A lazy plan that has bound `stages` over the input `start`. -/
structure Streams (start : View) (stages : List ParsedStage) (node : LogicalPlanNode)
    (feed : RowFeed) : Prop where
  denotes : (buildPhysicalPlan node).denote = .ok { mark := 0, feed }
  paced : feed.Paced 0
  /-- After `n` rows of input: what the stages make of the first `n`. -/
  evaluates : ∀ n, feed.Reads n → ∃ view, evaluate stages (start.first n) = .ok view ∧
    view.rows = feed.upTo n ∧ outputSchemaOf node = ⟨view.visible⟩
  /-- Reading ends with the input, or when a limit is full. -/
  stopped : feed.finish = none →
    feed.total = start.documents.length ∨ LimitReached stages (start.first feed.total)
  /-- It never goes beyond the point where a limit is full. -/
  least : ∀ n, LimitReached stages (start.first n) → feed.total ≤ n

theorem streams_scan {start : View} {table : Table} (hvisible : start.visible = table.schema.fields)
    (hrows : start.rows = table.rows) : Streams start [] (.kScan table) (.scan table.rows 0) where
  denotes := rfl
  paced := Feed.paced_scan table.rows 0
  evaluates n _ := by
    refine ⟨start.first n, rfl, ?_, ?_⟩
    · have hupTo := Feed.upTo_scan (ε := Exception) table.rows 0 n
      rw [Nat.zero_add] at hupTo
      rw [hupTo, ← hrows, View.rows, View.rows]
      exact List.map_take
    · simp only [outputSchemaOf, View.first, hvisible]
  stopped _ := by
    have hlength : start.documents.length = table.rows.length := by
      rw [← hrows, View.rows, List.length_map]
    refine .inl ?_
    rw [Feed.total_scan, Nat.zero_add, hlength]
  least n h := by cases h

variable {start : View} {stages : List ParsedStage} {node : LogicalPlanNode} {feed : RowFeed}

theorem Streams.match (h : Streams start stages node feed) {parsed : ParsedMatchStage}
    {predicate : Expression} (binds : BindsMatch (outputSchemaOf node) parsed.predicates predicate) :
    Streams start (stages ++ [.kMatch parsed]) (.kFilter node predicate)
      (feed.filter predicate.test) where
  denotes := by
    simp only [buildPhysicalPlan, PlanStageTree.denote, h.denotes]
    rfl
  paced := h.paced.filter
  evaluates n hreads := by
    obtain ⟨view, heval, hrows, hschema⟩ := h.evaluates n (hreads.of_filter h.paced)
    have hkeep := Feed.keep_upTo h.paced hreads
    rw [hschema] at binds
    rw [← hrows, View.rows, Feed.keep_map] at hkeep
    simp only [test_bindsMatch binds] at hkeep
    cases hdocuments : Feed.keep (holdsAll parsed.predicates) view.documents with
    | error e => rw [hdocuments] at hkeep; cases hkeep
    | ok documents =>
      rw [hdocuments] at hkeep
      refine ⟨{ view with documents }, ?_, Except.ok.inj hkeep, hschema⟩
      rw [evaluate_concat, heval]
      simp only [Except.bind, stage, hdocuments]
      rfl
  stopped hfinish := by
    obtain ⟨hnone, htotal⟩ := (Feed.total_filter predicate.test h.paced).2 hfinish
    rw [htotal]
    rcases h.stopped hnone with hall | hreached
    · exact .inl hall
    · exact .inr (limitReached_concat.mpr (.inl hreached))
  least n hreached := by
    have hle : (feed.filter predicate.test).total ≤ feed.total := (Feed.total_filter predicate.test h.paced).1
    rcases limitReached_concat.mp hreached with hbefore | ⟨_, _, _, _, hfills⟩
    · exact Nat.le_trans hle (h.least n hbefore)
    · cases hfills

theorem Streams.project (h : Streams start stages node feed) {parsed : ParsedProjectStage}
    {indices : List Nat}
    (addresses : List.Forall₂ (outputSchemaOf node).Addresses indices
      (parsed.fields.map (·.fieldName)))
    (distinct : (parsed.fields.map (·.fieldName)).Nodup) :
    Streams start (stages ++ [.kProject parsed])
      (.kProject node indices (parsed.fields.map (·.fieldName)))
      (feed.mapRows (ProjectStage.project indices)) where
  denotes := by
    simp only [buildPhysicalPlan, PlanStageTree.denote, h.denotes]
    rfl
  paced := h.paced.mapRows
  evaluates n hreads := by
    obtain ⟨view, heval, hrows, hschema⟩ := h.evaluates n (hreads.of_mapRows h.paced)
    have hmapped := Feed.mapRows_upTo hreads
    rw [hschema] at addresses
    rw [← hrows, View.rows] at hmapped
    refine ⟨{ view with visible := parsed.fields.map (·.fieldName) }, ?_, ?_, rfl⟩
    · rw [evaluate_concat, heval]
      rfl
    · -- projecting the row of a document is showing the document under other names
      rw [View.rows]
      generalize (feed.mapRows (ProjectStage.project indices)).upTo n = projected at hmapped
      generalize view.documents = documents at hmapped ⊢
      induction documents generalizing projected with
      | nil => cases hmapped; rfl
      | cons document documents ih =>
        cases hmapped with
        | cons hrow hrest =>
          rw [project_row addresses distinct document] at hrow
          rw [List.map_cons, ← Except.ok.inj hrow, ih _ hrest]
  stopped hfinish := by
    obtain ⟨hnone, htotal⟩ := (Feed.total_mapRows h.paced).2 hfinish
    rw [htotal]
    rcases h.stopped hnone with hall | hreached
    · exact .inl hall
    · exact .inr (limitReached_concat.mpr (.inl hreached))
  least n hreached := by
    have hle : (feed.mapRows (ProjectStage.project indices)).total ≤ feed.total :=
      (Feed.total_mapRows h.paced).1
    rcases limitReached_concat.mp hreached with hbefore | ⟨_, _, _, _, hfills⟩
    · exact Nat.le_trans hle (h.least n hbefore)
    · cases hfills

/-- A `$limit` on top, which is where reading can stop. -/
theorem Streams.limit (h : Streams start stages node feed) {parsed : ParsedLimitStage}
    {count : Nat} (hcount : count = parsed.countRaw.toInt.toNat) :
    Streams start (stages ++ [.kLimit parsed]) (.kLimit node count) (feed.limit count 0) where
  denotes := by
    simp only [buildPhysicalPlan, PlanStageTree.denote, h.denotes]
    rfl
  paced := h.paced.limit
  evaluates n hreads := by
    obtain ⟨view, heval, hrows, hschema⟩ := h.evaluates n (hreads.of_limit h.paced)
    refine ⟨{ view with documents := view.documents.take count }, ?_, ?_, hschema⟩
    · rw [evaluate_concat, heval, hcount]
      rfl
    · rw [Feed.limit_upTo, ← hrows, View.rows, View.rows, List.map_take]
  stopped hfinish := by
    rcases Nat.lt_or_ge feed.rows.length count with hlt | hge
    · rw [Feed.limit_not_reached hlt] at hfinish ⊢
      rcases h.stopped hfinish with hall | hreached
      · exact .inl hall
      · exact .inr (limitReached_concat.mpr (.inl hreached))
    · obtain ⟨-, hreads, hlength⟩ := Feed.limit_reached h.paced hge
      obtain ⟨view, heval, hrows, -⟩ := h.evaluates _ hreads
      refine .inr (limitReached_concat.mpr (.inr ⟨view, _, heval, rfl, ?_⟩))
      rw [← hrows, View.rows, List.length_map] at hlength
      rw [Fills, List.length_take, ← hcount]
      exact Nat.min_eq_left hlength
  least n hreached := by
    rcases limitReached_concat.mp hreached with hbefore | ⟨between, next, heval, hstage, hfills⟩
    · exact Nat.le_trans (Feed.total_limit h.paced) (h.least n hbefore)
    · -- had it read on, the limit below would already have been full
      by_contra hnot
      have hlt : n < feed.total :=
        Nat.lt_of_lt_of_le (Nat.lt_of_not_le hnot) (Feed.total_limit h.paced)
      obtain ⟨view, heval', hrows, -⟩ := h.evaluates n (.inl hlt)
      obtain rfl : between = view := Except.ok.inj (heval.symm.trans heval')
      rw [← Except.ok.inj hstage, Fills, List.length_take, ← hcount] at hfills
      refine hnot (Feed.total_limit_le (Nat.zero_le n) ?_)
      rw [← hrows, View.rows, List.length_map]
      omega

/-- **The run lemma.**  Stages without a sort make a lazy plan. -/
theorem streams_run : ∀ {rest stages : List ParsedStage} {node plan : LogicalPlanNode}
    {feed : RowFeed}, (∀ parsed ∈ rest, parsed.isSort = false) → node.WellBound →
    Streams start stages node feed → bindStages (outputSchemaOf node) node rest = .ok plan →
    ∃ feed', Streams start (stages ++ rest) plan feed'
  | [], stages, node, plan, feed, _, _, h, hbind => by
    rw [← Except.ok.inj hbind, List.append_nil]
    exact ⟨feed, h⟩
  | parsed :: rest, stages, node, plan, feed, hlazy, hbound, h, hbind => by
    obtain ⟨schema, node', hstage, hbind⟩ := bindStages_cons_ok hbind
    have hbinds := bindStage_cases hstage
    have hnext : ∃ feed', Streams start (stages ++ [parsed]) node' feed' := by
      cases hbinds with
      | «match» binds => exact ⟨_, h.match binds⟩
      | project addresses distinct => exact ⟨_, h.project addresses distinct⟩
      | sort addresses known => cases hlazy _ List.mem_cons_self
      | limit known => exact ⟨_, h.limit (bindLimit_reference known)⟩
    obtain ⟨feed', hfeed'⟩ := hnext
    obtain ⟨rfl, hbound', -⟩ := hbinds.wellBound hbound
    have hlazy' : ∀ parsed ∈ rest, parsed.isSort = false :=
      fun other hother => hlazy other (List.mem_cons_of_mem _ hother)
    obtain ⟨feed'', hfeed''⟩ := streams_run hlazy' hbound' hfeed' hbind
    rw [List.append_assoc] at hfeed''
    exact ⟨feed'', hfeed''⟩

/-! ## Above a blocking stage

  A blocking stage has read its child to the end by the time it is open.  What stands over it,
  another blocking stage included, reads nothing any more, so a plan over a blocking stage has
  examined what the part below it examines. -/

/-- `node` has a blocking stage over `base`. -/
inductive Drains (base : LogicalPlanNode) : LogicalPlanNode → Prop where
  | sort (columnIndex : Nat) (fieldName : String) (direction : SortDirection) :
      Drains base (.kSort base columnIndex fieldName direction)
  | topK (columnIndex : Nat) (fieldName : String) (direction : SortDirection) (k : Nat) :
      Drains base (.kTopK base columnIndex fieldName direction k)
  | overFilter {child : LogicalPlanNode} (predicate : Expression) :
      Drains base child → Drains base (.kFilter child predicate)
  | overProject {child : LogicalPlanNode} (columnIndices : List Nat) (fieldNames : List String) :
      Drains base child → Drains base (.kProject child columnIndices fieldNames)
  | overSort {child : LogicalPlanNode} (columnIndex : Nat) (fieldName : String)
      (direction : SortDirection) :
      Drains base child → Drains base (.kSort child columnIndex fieldName direction)
  | overLimit {child : LogicalPlanNode} (limit : Nat) :
      Drains base child → Drains base (.kLimit child limit)
  | overTopK {child : LogicalPlanNode} (columnIndex : Nat) (fieldName : String)
      (direction : SortDirection) (k : Nat) :
      Drains base child → Drains base (.kTopK child columnIndex fieldName direction k)

omit [StdLibrary] in
/-- Further stages stand over a blocking stage, they do not remove it. -/
theorem bindStages_drains {base : LogicalPlanNode} : ∀ {stages : List ParsedStage} {schema : Schema}
    {node plan : LogicalPlanNode}, Drains base node → bindStages schema node stages = .ok plan →
    Drains base plan
  | [], schema, node, plan, h, hbind => by
    rw [← Except.ok.inj hbind]
    exact h
  | parsed :: stages, schema, node, plan, h, hbind => by
    obtain ⟨schema', node', hstage, hbind⟩ := bindStages_cons_ok hbind
    have hnode' : Drains base node' := by
      cases bindStage_cases hstage with
      | «match» binds => exact .overFilter _ h
      | project addresses distinct => exact .overProject _ _ h
      | sort addresses known => exact .overSort _ _ _ h
      | limit known => exact .overLimit _ h
    exact bindStages_drains hnode' hbind

omit [StdLibrary] in
/-- The optimizer keeps a blocking stage where it is. -/
theorem drains_rewrite {base node : LogicalPlanNode} (h : Drains base node) :
    Drains (SortLimitToTopKRule.rewrite base).1 (SortLimitToTopKRule.rewrite node).1 := by
  fun_induction SortLimitToTopKRule.rewrite node with
  | case1 grandchild columnIndex fieldName direction limit ih =>
    cases h with
    | overLimit _ hsort =>
      cases hsort with
      | sort => exact .topK _ _ _ _
      | overSort _ _ _ hbelow => exact .overTopK _ _ _ _ (ih hbelow)
  | case2 table => cases h
  | case3 child predicate ih =>
    cases h with
    | overFilter _ hbelow => exact .overFilter _ (ih hbelow)
  | case4 child columnIndices fieldNames ih =>
    cases h with
    | overProject _ _ hbelow => exact .overProject _ _ (ih hbelow)
  | case5 child columnIndex fieldName direction ih =>
    cases h with
    | sort => exact .sort _ _ _
    | overSort _ _ _ hbelow => exact .overSort _ _ _ (ih hbelow)
  | case6 child limit hsort ih =>
    cases h with
    | overLimit _ hbelow => exact .overLimit _ (ih hbelow)
  | case7 child columnIndex fieldName direction k ih =>
    cases h with
    | topK => exact .topK _ _ _ _
    | overTopK _ _ _ _ hbelow => exact .overTopK _ _ _ _ (ih hbelow)

/-- A blocking stage that opened has read its child to the end. -/
theorem block_drained {fill : List Row → Row → Except Exception (List Row)}
    {comparator : RowComparator} {opened opened' : Opened}
    (h : opened.block fill comparator = .ok opened') :
    opened.feed.finish = none ∧ opened'.mark = opened.feed.total ∧
      opened'.feed.AtMark opened.feed.total := by
  unfold Opened.block at h
  split at h
  · cases h
  · split at h
    · cases h
    · rename_i hfinish
      cases hsort : StdAlgorithms.stdSort comparator.call _ with
      | error e => rw [hsort] at h; cases h
      | ok sorted =>
        rw [hsort] at h
        rw [← Except.ok.inj h]
        exact ⟨hfinish, rfl, Feed.atMark_ofList _ _⟩

/-- What a plan above a blocking stage yields, it yields with the input read as far as the part
    below the blocking stage goes. -/
structure Drained (below opened : Opened) : Prop where
  finish : below.feed.finish = none
  mark : opened.mark = below.feed.total
  feed : opened.feed.AtMark below.feed.total

/-- Whenever a plan opens, the part `base` of it has been drained. -/
def DrainsTo (base : LogicalPlanNode) (denoted : Except Exception Opened) : Prop :=
  ∀ opened, denoted = .ok opened →
    ∃ below, (buildPhysicalPlan base).denote = .ok below ∧ Drained below opened

/-- The lowest blocking stage. -/
theorem drainsTo_block (base : LogicalPlanNode)
    (fill : List Row → Row → Except Exception (List Row)) (comparator : RowComparator) :
    DrainsTo base
      ((buildPhysicalPlan base).denote.bind fun below => below.block fill comparator) := by
  intro opened hblock
  cases hbelow : (buildPhysicalPlan base).denote with
  | error e => rw [hbelow] at hblock; cases hblock
  | ok below =>
    rw [hbelow] at hblock
    obtain ⟨hfinish, hmark, hfeed⟩ := block_drained hblock
    exact ⟨below, rfl, hfinish, hmark, hfeed⟩

/-- A further one: its child has nothing left to read. -/
theorem DrainsTo.block {base : LogicalPlanNode} {denoted : Except Exception Opened}
    (h : DrainsTo base denoted) (fill : List Row → Row → Except Exception (List Row))
    (comparator : RowComparator) :
    DrainsTo base (denoted.bind fun between => between.block fill comparator) := by
  intro opened hblock
  cases denoted with
  | error e => cases hblock
  | ok between =>
    obtain ⟨-, hmark, hfeed⟩ := block_drained hblock
    obtain ⟨below, hbelow, hfinish, -, hdrained⟩ := h between rfl
    rw [hdrained.total] at hmark hfeed
    exact ⟨below, hbelow, hfinish, hmark, hfeed⟩

/-- A lazy stage. -/
theorem DrainsTo.map {base : LogicalPlanNode} {denoted : Except Exception Opened}
    (h : DrainsTo base denoted) {f : Opened → Opened}
    (hf : ∀ between, between.feed.AtMark between.mark →
      (f between).mark = between.mark ∧ (f between).feed.AtMark between.mark) :
    DrainsTo base (denoted.map f) := by
  intro opened hmap
  cases denoted with
  | error e => cases hmap
  | ok between =>
    obtain rfl := Except.ok.inj hmap
    obtain ⟨below, hbelow, hfinish, hmark, hfeed⟩ := h between rfl
    obtain ⟨hsame, hatMark⟩ := hf between (hmark.symm ▸ hfeed)
    exact ⟨below, hbelow, hfinish, hsame.trans hmark, hmark ▸ hatMark⟩

/-- Every plan over a blocking stage drains what is below; by induction on the plan. -/
theorem drains_denote {base node : LogicalPlanNode} (h : Drains base node) :
    DrainsTo base (buildPhysicalPlan node).denote := by
  induction h with
  | sort columnIndex fieldName direction => exact drainsTo_block base _ _
  | topK columnIndex fieldName direction k => exact drainsTo_block base _ _
  | overFilter predicate _ ih => exact ih.map fun _ hfeed => ⟨rfl, hfeed.filter _⟩
  | overProject columnIndices fieldNames _ ih => exact ih.map fun _ hfeed => ⟨rfl, hfeed.mapRows _⟩
  | overSort columnIndex fieldName direction _ ih => exact ih.block _ _
  | overLimit limit _ ih => exact ih.map fun _ hfeed => ⟨rfl, hfeed.limit limit⟩
  | overTopK columnIndex fieldName direction k _ ih => exact ih.block _ _

/-! ## Whole pipelines

  The two cases are joined at the first sort of the pipeline: the stages before it are a lazy plan,
  and the sort, or the top-k the optimizer makes of it, drains that plan. -/

/-- The stages that precede the first sort: all of them when there is none. -/
def beforeSort (stages : List ParsedStage) : List ParsedStage :=
  stages.takeWhile fun parsed => !parsed.isSort

omit [StdLibrary] in
theorem beforeSort_lazy (stages : List ParsedStage) :
    ∀ parsed ∈ beforeSort stages, parsed.isSort = false := by
  intro parsed hparsed
  have hnot := List.all_eq_true.mp List.all_takeWhile parsed hparsed
  simpa using hnot

/-- What an optimized plan has read when it has been pulled to its end is what the lazy plan of the
    stages before the first sort reads. -/
theorem optimized_reads {table : Table} {pipeline : ParsedPipeline} {plan : LogicalPlanNode}
    {start : View} {opened : Opened} (htable : table.WellFormed)
    (hvisible : start.visible = table.schema.fields) (hrows : start.rows = table.rows)
    (hbind : bindPipeline table pipeline = .ok plan)
    (hdenote : (optimizedPlan plan).denote = .ok opened) (hfinish : opened.feed.finish = none) :
    ∃ node feed, Streams start (beforeSort pipeline.stages) node feed ∧ feed.finish = none ∧
      opened.feed.total = feed.total := by
  have hsplit := List.takeWhile_append_dropWhile (p := fun parsed => !parsed.isSort)
    (l := pipeline.stages)
  unfold bindPipeline at hbind
  rw [← hsplit, show table.schema = outputSchemaOf (.kScan table) from rfl, bindStages_append]
    at hbind
  obtain ⟨node, hbefore, hafter⟩ := Except.bind_eq_ok hbind
  obtain ⟨hbound, hnodeTable⟩ := bindStages_wellBound (.scan table) hbefore
  obtain ⟨feed, hstreams⟩ := streams_run (beforeSort_lazy pipeline.stages) (.scan table)
    (streams_scan hvisible hrows) hbefore
  rw [List.nil_append] at hstreams
  have hrewritten : (buildPhysicalPlan (SortLimitToTopKRule.rewrite node).1).denote =
      .ok { mark := 0, feed } :=
    hbound.denote_rewrite (hnodeTable ▸ htable) hstreams.denotes
  refine ⟨node, feed, hstreams, ?_⟩
  unfold optimizedPlan at hdenote
  rw [Optimizer.optimize_fst] at hdenote
  cases hrest : pipeline.stages.dropWhile fun parsed => !parsed.isSort with
  | nil =>
    -- no sort at all: the whole plan is lazy
    rw [hrest] at hafter
    obtain rfl := Except.ok.inj hafter
    rw [hrewritten] at hdenote
    obtain rfl := Except.ok.inj hdenote
    exact ⟨hfinish, rfl⟩
  | cons parsed rest =>
    have hsort : parsed.isSort = true := by
      have hhead := List.head?_dropWhile_not (fun parsed : ParsedStage => !parsed.isSort)
        pipeline.stages
      rw [hrest] at hhead
      simpa using hhead
    rw [hrest] at hafter
    obtain ⟨schema, sorted, hstage, hafter⟩ := bindStages_cons_ok hafter
    have hdrains : Drains node sorted := by
      cases bindStage_cases hstage with
      | sort addresses known => exact .sort _ _ _
      | «match» | project | limit => cases hsort
    have hplan := drains_rewrite (bindStages_drains hdrains hafter)
    obtain ⟨below, hbelow, hdrained⟩ := drains_denote hplan opened hdenote
    rw [hrewritten] at hbelow
    obtain rfl := Except.ok.inj hbelow
    exact ⟨hdrained.finish, hdrained.feed.total⟩

end Streaming

/-! ## Rows reach a stage from the scan only

  No stage can take in more than the scan has given out, because what a stage counts in its child
  has counted out, and no stage gives out more than it takes in. -/

namespace PlanStageTree

/-- A parent has taken in what its child has given out, which is at most what the child took in. -/
theorem rowsIn_le_of_child {σ Own : Type} {cbase : σ → PlanStageBase} {CInv : Bool → σ → Prop}
    {streaming : Bool} {Holds : LifecycleState → Nat → Nat → Own → Prop} {calm : Bool}
    {this : StageObject (ParentStage Own σ)} {views : List StageView} {view : StageView} {n : Nat}
    (hInv : StageInv (ParentInv cbase CInv streaming Holds) calm this)
    (hchild : CInv calm this.members.child → StagesOk calm (cbase this.members.child) views ∧
      ∀ view ∈ views, view.base.stats.rowsIn ≤ n) (hbase : view.base = this.base) :
    ∀ v ∈ view :: views, v.base.stats.rowsIn ≤ n := by
  obtain ⟨-, ⟨childState, -, hdriven⟩, -, -⟩ := hInv
  obtain ⟨⟨hroot, heach, -⟩, hviews⟩ := hchild hdriven.inv
  intro v hv
  rcases List.mem_cons.mp hv with rfl | hv
  · cases views with
    | nil => cases hroot
    | cons child views =>
      have hsame : child.base = cbase this.members.child := Option.some.inj hroot
      have hout := (heach child List.mem_cons_self).base.rowsOut_le
      have hin := hviews child List.mem_cons_self
      rw [hbase, hdriven.rows, ← hsame]
      exact Nat.le_trans hout hin
  · exact hviews v hv

/-- No stage of a plan has taken in more rows than the scan has given out. -/
theorem rowsIn_le_scanned : ∀ (tree : PlanStageTree) {calm : Bool} {this : tree.Object},
    tree.Inv calm this → ∀ view ∈ tree.stages this, view.base.stats.rowsIn ≤ tree.scanned this
  | collectionScanStage table, calm, this, hInv => by
    intro view hview
    have hscan : StageInv (ScanInv table) calm this := hInv
    obtain rfl := List.mem_singleton.mp hview
    exact Nat.le_of_eq hscan.2.1
  | filterStage child _, _, _, hInv | projectStage child _, _, _, hInv
  | sortStage child _, _, _, hInv | limitStage child _, _, _, hInv
  | topKStage child _ _, _, _, hInv =>
    rowsIn_le_of_child hInv (fun h => ⟨child.stages_ok h, child.rowsIn_le_scanned h⟩) rfl

end PlanStageTree

/-! ## EXPLAIN ANALYZE

  The counters of the report are those of the stages as the run has left them, and
  `documentsExamined` is what the scan has counted out. -/

/-- An EXPLAIN ANALYZE that completed, seen from its plan. -/
theorem analyze_ok [StdLibrary] {clock : Clock} {table : Table} {pipelineJson : Json}
    {analysis : Analysis} (h : analyze clock table pipelineJson = .ok analysis) :
    ∃ parsed plan opened, parsePipeline pipelineJson = .ok parsed ∧
      bindPipeline table parsed = .ok plan ∧ (optimizedPlan plan).denote = .ok opened ∧
      opened.feed.finish = none ∧ analysis.rows = opened.feed.rows ∧
      analysis.global.documentsExamined = opened.feed.total ∧
      analysis.planned.physicalRoot.Inv false analysis.stage := by
  unfold analyze at h
  cases hplanned : planQuery table pipelineJson with
  | error e => rw [hplanned] at h; cases h
  | ok planned =>
    rw [hplanned] at h
    obtain ⟨parsed, plan, hparse, hbind, hroot, -⟩ := planQuery_ok hplanned
    obtain ⟨rows, hrows, rfl⟩ := Except.map_eq_ok h
    rw [planned.physicalRoot.execute_denote] at hrows
    obtain ⟨opened, hdenote, hcollect⟩ := Except.bind_eq_ok hrows
    obtain ⟨hfinish, rfl⟩ := Feed.collect_eq_ok.mp hcollect
    exact ⟨parsed, plan, opened, hparse, hbind, hroot ▸ hdenote, hfinish, rfl,
      PlanStageTree.scanned_execute hdenote, (planned.physicalRoot.execute_closed clock).1⟩

/-- A run and an analysis go through the same rows. -/
theorem runPipeline_analyze [StdLibrary] {table : Table} {pipelineJson : Json}
    (clock clock' : Clock) :
    runPipeline clock table pipelineJson = (analyze clock' table pipelineJson).map fun analysis =>
      { rows := analysis.rows, outputSchema := analysis.planned.outputSchema } := by
  cases hplanned : planQuery table pipelineJson with
  | error e =>
    simp only [runPipeline, analyze, hplanned]
    rfl
  | ok planned =>
    simp only [runPipeline, analyze, hplanned, PlanStageTree.execute_denote]
    cases planned.physicalRoot.denote.bind fun opened => opened.feed.collect with
    | error e => rfl
    | ok rows => rfl

/-- **Exact amount of input read.**  When EXPLAIN ANALYZE completes, the documents it has examined
    are the first `n` of the table, where `n` is the least number on which the stages before the
    first sort fill one of their limits, or the whole table when none gets full.  No stage has taken
    in a row beyond those, and the documents it reports returned are the rows of the query. -/
theorem input_read [StdLibrary] {documents : List Json} {table : Table} {pipelineJson report : Json}
    {includeResults : Bool} (clock : Clock) (hwf : (Json.array documents).WellFormed)
    (hload : loadTableFromJson (.array documents) = .ok table)
    (hrun : explainAnalyzePipeline clock table pipelineJson includeResults = .ok report) :
    ∃ parsed analysis result, parsePipeline pipelineJson = .ok parsed ∧
      analyze clock table pipelineJson = .ok analysis ∧ report = analysis.toJson includeResults ∧
      (let examined := analysis.global.documentsExamined
        let stages := beforeSort parsed.stages
        let first := fun n => (Reference.load documents).first n
        IsLeast {n | LimitReached stages (first n)} examined ∨
          (∀ n, ¬ LimitReached stages (first n)) ∧ examined = table.rows.length) ∧
      (∀ view ∈ analysis.planned.physicalRoot.stages analysis.stage,
        view.base.stats.rowsIn ≤ analysis.global.documentsExamined) ∧
      runPipeline clock table pipelineJson = .ok result ∧
      analysis.global.documentsReturned = result.rows.length := by
  have hloaded := loadTableFromJson_loaded hwf hload
  unfold explainAnalyzePipeline at hrun
  cases hanalysis : analyze clock table pipelineJson with
  | error e => rw [hanalysis] at hrun; cases hrun
  | ok analysis =>
    rw [hanalysis] at hrun
    obtain ⟨parsed, plan, opened, hparse, hbind, hdenote, hfinish, hrows, hexamined, hInv⟩ :=
      analyze_ok hanalysis
    have hresult : runPipeline clock table pipelineJson =
        .ok { rows := analysis.rows, outputSchema := outputSchemaOf plan } := by
      rw [hrows]
      exact runPipeline_of_denote hparse hbind hdenote hfinish
    refine ⟨parsed, analysis, _, hparse, rfl, (Except.ok.inj hrun).symm, ?_, ?_, hresult, rfl⟩
    · -- the optimized plan reads what its lazy part reads
      obtain ⟨node, feed, hstreams, hnone, htotal⟩ := optimized_reads
        (loadTableFromJson_wellFormed hload) (Reference.load_visible hloaded)
        (Reference.load_rows hloaded) hbind hdenote hfinish
      have hcount : (Reference.load documents).documents.length = table.rows.length := by
        rw [← Reference.load_rows hloaded, View.rows, List.length_map]
      simp only [hexamined, htotal]
      rcases hstreams.stopped hnone with hall | hreached
      · by_cases hsome : ∃ n, LimitReached (beforeSort parsed.stages)
            ((Reference.load documents).first n)
        · -- a limit that the whole table fills, if any does
          obtain ⟨n, hreached⟩ := hsome
          have hle := hstreams.least n hreached
          have hsame : (Reference.load documents).first n =
              (Reference.load documents).first feed.total := by
            rw [View.first, View.first, List.take_of_length_le (hall ▸ hle),
              List.take_of_length_le (Nat.le_of_eq hall.symm)]
          rw [hsame] at hreached
          exact .inl ⟨hreached, fun m hm => hstreams.least m hm⟩
        · exact .inr ⟨fun n hreached => hsome ⟨n, hreached⟩, hall.trans hcount⟩
      · exact .inl ⟨hreached, fun m hm => hstreams.least m hm⟩
    · exact analysis.planned.physicalRoot.rowsIn_le_scanned hInv

/-- The limit is full after the first of the two documents. -/
def sampleLimitJson : Json := .array [.object [("$limit", .numberInteger 1)]]

/-- One document is examined, and one is the least number of documents that fills the limit. -/
theorem input_read_sample :
    letI := StdLibrary.reference
    ∃ analysis, analyze Clock.still sampleTable sampleLimitJson = .ok analysis ∧
      analysis.global.documentsExamined = 1 ∧
      IsLeast {n | LimitReached [.kLimit { countRaw := 1 }]
        ((Reference.load sampleDocuments).first n)} 1 ∧
      (∀ view ∈ analysis.planned.physicalRoot.stages analysis.stage,
        view.base.stats.rowsIn ≤ 1) ∧
      analysis.global.documentsReturned = 1 := by
  obtain ⟨parsed, analysis, result, hparse, hanalysis, -, hleast, hviews, hrun, hreturned⟩ :=
    @input_read StdLibrary.reference sampleDocuments sampleTable sampleLimitJson _ true
      Clock.still sampleDocuments_wellFormed rfl rfl
  obtain rfl : (⟨[.kLimit { countRaw := 1 }]⟩ : ParsedPipeline) = parsed := Except.ok.inj hparse
  have hexamined : analysis.global.documentsExamined = 1 := by
    have hglobal : (@analyze StdLibrary.reference Clock.still sampleTable sampleLimitJson).map
        (·.global.documentsExamined) = .ok 1 := rfl
    rw [hanalysis] at hglobal
    exact Except.ok.inj hglobal
  obtain rfl : (⟨[{ ordinal := 0, values := [.null] }], { fields := ["a"] }⟩ : QueryResult) =
    result := Except.ok.inj hrun
  rw [hexamined] at hleast hviews
  refine ⟨analysis, hanalysis, hexamined, ?_, hviews, hreturned⟩
  rcases hleast with hleast | ⟨-, hwhole⟩
  · exact hleast
  · exact absurd hwhole (by decide)

end QueryLume
