/-
  Tables with other columns.

  Binding turns names into column indices, and a table with more, fewer or rearranged columns gives
  other indices for the same names.  Seen through the names the two plans do the same (`Rebound`):
  documents that agree in every field a query tests or returns give the same rows or the same
  exception, whatever other fields they have and whatever their schemas are (`run_other_fields`).

  1. **Rows** of the two tables are shown as documents, which know their cells by name
     (`ShowsAgreeing`); the positions of the documents are tied by a relation `ord`, so that the
     same argument serves where ordinals differ.

  2. **Plans** — the same stages, bound over two schemas, give plans of one shape; the rewrite
     keeps that.

  3. **Runs** — denotations over related rows are related (`Rebound.denote_shown`); a plan that
     sorts needs positions in the same order.
-/
import QueryLume.Query.Noninterference

namespace QueryLume

open LogicalPlanNode Reference StdAlgorithms

/-! ## Documents that agree

  Two documents of the reference semantics that have the same cells in the fields of `S`.  Their
  positions may differ; `ord` relates them. -/

/-- The same document, as far as the fields of `S` go; `ord` ties its positions in the two. -/
structure Reference.Document.Agree (S : String → Prop) (ord : Nat → Nat → Prop)
    (document document' : Document) : Prop where
  ordinal : ord document.ordinal document'.ordinal
  cell : ∀ name, S name → document.cell name = document'.cell name

/-- Positions that come in the same order. -/
def OrderKept (ord : Nat → Nat → Prop) : Prop :=
  ∀ a a' b b', ord a a' → ord b b' → (a < b ↔ a' < b')

theorem orderKept_eq : OrderKept (· = ·) := by
  rintro a _ b _ rfl rfl
  exact Iff.rfl

/-- Rows that show such documents, each under the names of its own schema. -/
def ShowsAgreeing (S : String → Prop) (ord : Nat → Nat → Prop) (visible visible' : List String)
    (row row' : Row) : Prop :=
  ∃ document document' : Document, document.Agree S ord document' ∧ row = document.row visible ∧
    row' = document'.row visible'

section Names

variable {S : String → Prop} {ord : Nat → Nat → Prop} {a a' b b' : Document}

/-- Predicates over the fields of `S` hold of both documents or of none. -/
theorem Reference.holdsAll_agree (h : a.Agree S ord a') : ∀ {predicates : List ParsedComparison},
    (∀ predicate ∈ predicates, S predicate.field.fieldName) →
    holdsAll predicates a = holdsAll predicates a'
  | [], _ => rfl
  | predicate :: predicates, hnames => by
    obtain ⟨hfirst, hrest⟩ := List.forall_mem_cons.mp hnames
    rw [holdsAll, holdsAll, holds, holds, h.cell _ hfirst, holdsAll_agree h hrest]

theorem Reference.precedes_agree {ascending : Bool} {field : String} (hord : OrderKept ord)
    (hfield : S field) (ha : a.Agree S ord a') (hb : b.Agree S ord b') :
    precedes ascending field a b = precedes ascending field a' b' := by
  have hordinal : a.ordinal < b.ordinal ↔ a'.ordinal < b'.ordinal :=
    hord _ _ _ _ ha.ordinal hb.ordinal
  rw [precedes, precedes, ha.cell field hfield, hb.cell field hfield]
  simp only [hordinal]

/-- Under the same names, all of them in `S`, the rows are equal. -/
theorem ShowsAgreeing.eq {visible : List String} (hall : ∀ name ∈ visible, S name) {row row' : Row}
    (h : ShowsAgreeing S (· = ·) visible visible row row') : row = row' := by
  obtain ⟨document, document', hagree, rfl, rfl⟩ := h
  simp only [Document.row, Row.mk.injEq]
  refine ⟨hagree.ordinal, List.map_congr_left fun name hname => ?_⟩
  exact hagree.cell name (hall name hname)

end Names

/-! ## Plans of the same stages

  The same stages over two tables with different columns: the same names at other positions.  The
  two plans have the same shape, before and after the rewrite. -/

/-- The same stages, bound over two tables. -/
inductive Rebound : LogicalPlanNode → LogicalPlanNode → Prop where
  | scan (table table' : Table) : Rebound (.kScan table) (.kScan table')
  | filter {child child' : LogicalPlanNode} {predicates : List ParsedComparison}
      {predicate predicate' : Expression} (below : Rebound child child')
      (binds : BindsMatch (outputSchemaOf child) predicates predicate)
      (binds' : BindsMatch (outputSchemaOf child') predicates predicate') :
      Rebound (.kFilter child predicate) (.kFilter child' predicate')
  | project {child child' : LogicalPlanNode} {indices indices' : List Nat} {names : List String}
      (below : Rebound child child')
      (addresses : List.Forall₂ (outputSchemaOf child).Addresses indices names)
      (addresses' : List.Forall₂ (outputSchemaOf child').Addresses indices' names)
      (distinct : names.Nodup) :
      Rebound (.kProject child indices names) (.kProject child' indices' names)
  | sort {child child' : LogicalPlanNode} {index index' : Nat} {name : String}
      {direction : SortDirection} (below : Rebound child child')
      (addresses : (outputSchemaOf child).Addresses index name)
      (addresses' : (outputSchemaOf child').Addresses index' name) :
      Rebound (.kSort child index name direction) (.kSort child' index' name direction)
  | limit {child child' : LogicalPlanNode} {limit : Nat} (below : Rebound child child') :
      Rebound (.kLimit child limit) (.kLimit child' limit)
  | topK {child child' : LogicalPlanNode} {index index' : Nat} {name : String}
      {direction : SortDirection} {k : Nat} (below : Rebound child child')
      (addresses : (outputSchemaOf child).Addresses index name)
      (addresses' : (outputSchemaOf child').Addresses index' name) :
      Rebound (.kTopK child index name direction k) (.kTopK child' index' name direction k)

theorem BindsStage.rebound {node node' next next' : LogicalPlanNode} {stage : ParsedStage}
    {schema schema' : Schema} (h : BindsStage (outputSchemaOf node) node stage schema next)
    (h' : BindsStage (outputSchemaOf node') node' stage schema' next') (hbelow : Rebound node node') :
    Rebound next next' := by
  cases h with
  | «match» binds =>
    obtain ⟨binds'⟩ := h'
    exact .filter hbelow binds binds'
  | project addresses distinct =>
    obtain _ | ⟨addresses', -⟩ := h'
    exact .project hbelow addresses addresses' distinct
  | sort addresses known =>
    obtain _ | _ | ⟨addresses', known'⟩ := h'
    obtain rfl := Except.ok.inj (known.symm.trans known')
    exact .sort hbelow addresses addresses'
  | limit known =>
    obtain _ | _ | _ | ⟨known'⟩ := h'
    obtain rfl := Except.ok.inj (known.symm.trans known')
    exact .limit hbelow

/-- The schema that is handed on is that of the plan. -/
theorem BindsStage.schema_eq {node next : LogicalPlanNode} {stage : ParsedStage} {schema : Schema}
    (h : BindsStage (outputSchemaOf node) node stage schema next) : schema = outputSchemaOf next := by
  cases h <;> rfl

/-- All stages; by induction on them. -/
theorem bindStages_rebound : ∀ {stages : List ParsedStage} {node node' plan plan' : LogicalPlanNode},
    Rebound node node' → bindStages (outputSchemaOf node) node stages = .ok plan →
    bindStages (outputSchemaOf node') node' stages = .ok plan' → Rebound plan plan'
  | [], node, node', plan, plan', hnodes, h, h' => by
    obtain rfl := Except.ok.inj h
    obtain rfl := Except.ok.inj h'
    exact hnodes
  | stage :: stages, node, node', plan, plan', hnodes, h, h' => by
    obtain ⟨schema, next, hstage, hrest⟩ := bindStages_cons_ok h
    obtain ⟨schema', next', hstage', hrest'⟩ := bindStages_cons_ok h'
    have hbinds := bindStage_cases hstage
    have hbinds' := bindStage_cases hstage'
    rw [hbinds.schema_eq] at hrest
    rw [hbinds'.schema_eq] at hrest'
    exact bindStages_rebound (hbinds.rebound hbinds' hnodes) hrest hrest'

/-- The optimizer does the same to both. -/
theorem Rebound.rewrite {node node' : LogicalPlanNode} (h : Rebound node node') :
    Rebound (SortLimitToTopKRule.rewrite node).1 (SortLimitToTopKRule.rewrite node').1 := by
  fun_induction SortLimitToTopKRule.rewrite node generalizing node' with
  | case1 grandchild columnIndex fieldName direction limit ih =>
    obtain _ | _ | _ | _ | ⟨hsort⟩ | _ := h
    obtain _ | _ | _ | ⟨below, addresses, addresses'⟩ | _ | _ := hsort
    rw [← outputSchemaOf_rewrite] at addresses addresses'
    exact .topK (ih below) addresses addresses'
  | case2 table =>
    cases h with
    | scan _ table' => exact .scan table table'
  | case3 child predicate ih =>
    cases h with
    | filter below binds binds' =>
      rw [← outputSchemaOf_rewrite] at binds binds'
      exact .filter (ih below) binds binds'
  | case4 child columnIndices fieldNames ih =>
    cases h with
    | project below addresses addresses' distinct =>
      rw [← outputSchemaOf_rewrite] at addresses addresses'
      exact .project (ih below) addresses addresses' distinct
  | case5 child columnIndex fieldName direction ih =>
    cases h with
    | sort below addresses addresses' =>
      rw [← outputSchemaOf_rewrite] at addresses addresses'
      exact .sort (ih below) addresses addresses'
  | case6 child limit hsort ih =>
    cases h with
    | @limit _ child' _ below =>
      rw [SortLimitToTopKRule.rewrite]
      · exact .limit (ih below)
      · intro grandchild columnIndex fieldName direction heq
        subst heq
        obtain _ | _ | _ | _ | _ | _ := below
        exact hsort _ _ _ _ rfl
  | case7 child columnIndex fieldName direction k ih =>
    cases h with
    | topK below addresses addresses' =>
      rw [← outputSchemaOf_rewrite] at addresses addresses'
      exact .topK (ih below) addresses addresses'

/-! ## Two runs

  Both plans are followed stage by stage, with agreeing documents behind their rows.  A sort needs
  the order of the positions for its ties. -/

/-- Does the plan order rows anywhere? -/
def LogicalPlanNode.sorts : LogicalPlanNode → Bool
  | .kScan _ => false
  | .kFilter child _ => child.sorts
  | .kProject child _ _ => child.sorts
  | .kSort _ _ _ _ => true
  | .kLimit child _ => child.sorts
  | .kTopK _ _ _ _ _ => true

theorem sorts_rewrite (node : LogicalPlanNode) :
    (SortLimitToTopKRule.rewrite node).1.sorts = node.sorts := by
  fun_induction SortLimitToTopKRule.rewrite node with
  | case1 grandchild columnIndex fieldName direction limit ih => rfl
  | case2 table => rfl
  | case3 child predicate ih => exact ih
  | case4 child columnIndices fieldNames ih => exact ih
  | case5 child columnIndex fieldName direction ih => rfl
  | case6 child limit hsort ih => exact ih
  | case7 child columnIndex fieldName direction k ih => rfl

section Denotations

variable [StdLibrary] {S : String → Prop} {ord : Nat → Nat → Prop}

omit [StdLibrary] in
/-- Comparators of one name, each in its own schema. -/
theorem call_shown {schema schema' : Schema} {columnIndex columnIndex' : Nat} {name : String}
    (direction : SortDirection) (haddresses : schema.Addresses columnIndex name)
    (haddresses' : schema'.Addresses columnIndex' name) (hord : OrderKept ord) (hname : S name)
    (a a' b b' : Row) (ha : ShowsAgreeing S ord schema.fields schema'.fields a a')
    (hb : ShowsAgreeing S ord schema.fields schema'.fields b b') :
    RowComparator.call { columnIndex, direction } a b =
      RowComparator.call { columnIndex := columnIndex', direction } a' b' := by
  obtain ⟨document, document', hagree, rfl, rfl⟩ := ha
  obtain ⟨other, other', hother, rfl, rfl⟩ := hb
  rw [call_row { columnIndex, direction } haddresses,
    call_row { columnIndex := columnIndex', direction } haddresses']
  exact precedes_agree hord hname hagree hother

/-- **Two plans of the same stages**, over two tables whose rows show agreeing documents.  The order
    of the documents matters to a plan that sorts. -/
theorem Rebound.denote_shown {node node' : LogicalPlanNode} (h : Rebound node node')
    (hord : node.sorts = true → OrderKept ord) (htested : ∀ name ∈ node.testedFields, S name)
    (hrows : List.Forall₂ (ShowsAgreeing S ord node.table.schema.fields node'.table.schema.fields)
      node.table.rows node'.table.rows) :
    SameOutcome (Opened.Related
      (ShowsAgreeing S ord (outputSchemaOf node).fields (outputSchemaOf node').fields))
      (buildPhysicalPlan node).denote (buildPhysicalPlan node').denote := by
  induction h with
  | scan table table' => exact .ok ⟨rfl, Feed.related_scan hrows 0⟩
  | @filter child child' predicates predicate predicate' below binds binds' ih =>
    have hchild := ih hord (fun name hname => htested name (List.mem_append_right _ hname)) hrows
    refine hchild.map fun opened opened' hopened => ⟨hopened.mark, hopened.feed.filter ?_⟩
    rintro row row' ⟨document, document', hagree, rfl, rfl⟩
    rw [test_bindsMatch binds, test_bindsMatch binds']
    refine holdsAll_agree hagree fun parsed hparsed => htested _ (List.mem_append_left _ ?_)
    rw [binds.fieldNames]
    exact List.mem_map_of_mem hparsed
  | project below addresses addresses' distinct ih =>
    refine (ih hord htested hrows).map fun opened opened' hopened => ⟨hopened.mark, ?_⟩
    refine hopened.feed.mapRows ?_
    rintro row row' ⟨document, document', hagree, rfl, rfl⟩
    rw [project_row addresses distinct, project_row addresses' distinct]
    exact .ok ⟨document, document', hagree, rfl, rfl⟩
  | @sort child child' index index' name direction below addresses addresses' ih =>
    have hchild := ih (fun _ => hord rfl)
      (fun name hname => htested name (List.mem_cons_of_mem _ hname)) hrows
    have hcall := call_shown direction addresses addresses' (hord rfl)
      (htested _ List.mem_cons_self)
    refine hchild.bind fun opened opened' hopened => block_related hcall ?_ hopened.feed
    exact fun buffer buffer' row row' hbuffer hrow => .ok (hbuffer.append (.cons hrow .nil))
  | limit below ih =>
    refine (ih hord htested hrows).map fun opened opened' hopened => ⟨hopened.mark, ?_⟩
    rw [hopened.mark]
    exact hopened.feed.limit _ _
  | @topK child child' index index' name direction k below addresses addresses' ih =>
    have hchild := ih (fun _ => hord rfl)
      (fun name hname => htested name (List.mem_cons_of_mem _ hname)) hrows
    have hcall := call_shown direction addresses addresses' (hord rfl)
      (htested _ List.mem_cons_self)
    refine hchild.bind fun opened opened' hopened => block_related hcall ?_ hopened.feed
    exact fun buffer buffer' row row' hbuffer hrow =>
      BoundedHeap.offer_related hcall _ hbuffer hrow

end Denotations

/-! ## Rows of a table as documents

  A row is a document by the names of its schema, so rows of two tables can be compared although
  their columns are not the same. -/

/-- The cell of a row under a name, null where the schema lacks it. -/
def Row.named (schema : Schema) (row : Row) (name : String) : Value :=
  ((schema.indexOf name).bind (row.values[·]?)).getD .null

/-- The document that a row shows. -/
def Row.document (schema : Schema) (row : Row) : Document where
  ordinal := row.ordinal
  cell := row.named schema

theorem Schema.indexOf_getElem {schema : Schema} (hfields : schema.fields.Nodup) {index : Nat}
    (hlt : index < schema.fields.length) : schema.indexOf schema.fields[index] = some index := by
  cases hindex : schema.indexOf schema.fields[index] with
  | none => exact absurd (List.getElem_mem hlt) (Schema.indexOf_eq_none.mp hindex)
  | some column =>
    have hboth := (Schema.getElem?_of_indexOf _ hindex).trans (List.getElem?_eq_getElem hlt).symm
    rw [(List.getElem?_inj hlt hfields).mp hboth.symm]

/-- All of its cells are in it. -/
theorem Row.row_document {schema : Schema} {row : Row} (hfields : schema.fields.Nodup)
    (hwide : row.values.length = schema.columnCount) :
    (row.document schema).row schema.fields = row := by
  obtain ⟨ordinal, values⟩ := row
  have hlength : values.length = schema.fields.length := hwide
  simp only [Document.row, Row.document, Row.mk.injEq, true_and]
  refine List.ext_getElem ((List.length_map ..).trans hwide.symm) fun i hi hvalue => ?_
  rw [List.getElem_map, Row.named, Schema.indexOf_getElem hfields (hlength ▸ hvalue), Option.bind,
    List.getElem?_eq_getElem hvalue]
  rfl

/-! ## Two tables

  For tables, with names instead of documents. -/

/-- The rows of two tables agree in the fields of `S`, found by name. -/
def Table.AgreeIn (S : String → Prop) (ord : Nat → Nat → Prop) (table table' : Table) : Prop :=
  List.Forall₂ (fun row row' => ord row.ordinal row'.ordinal ∧
    ∀ name, S name → row.named table.schema name = row'.named table'.schema name)
    table.rows table'.rows

/-- As wide as its schema, and no name twice. -/
structure Table.Rectangular (table : Table) : Prop where
  wide : ∀ row ∈ table.rows, row.values.length = table.schema.columnCount
  distinct : table.schema.fields.Nodup

/-- Rows that agree by name show agreeing documents. -/
theorem Table.AgreeIn.shows {S : String → Prop} {ord : Nat → Nat → Prop} {table table' : Table}
    (h : table.AgreeIn S ord table') (htable : table.Rectangular) (htable' : table'.Rectangular) :
    List.Forall₂ (ShowsAgreeing S ord table.schema.fields table'.schema.fields) table.rows
      table'.rows := by
  refine List.forall₂_iff_zip.mpr ⟨h.length_eq, fun {row row'} hmem => ?_⟩
  obtain ⟨hordinal, hcells⟩ := List.forall₂_zip h hmem
  obtain ⟨hrow, hrow'⟩ := List.of_mem_zip hmem
  refine ⟨row.document table.schema, row'.document table'.schema, ⟨hordinal, hcells⟩, ?_, ?_⟩
  · exact (Row.row_document htable.distinct (htable.wide row hrow)).symm
  · exact (Row.row_document htable'.distinct (htable'.wide row' hrow')).symm

section Runs

variable [StdLibrary] {table table' : Table} {pipelineJson : Json} {parsed : ParsedPipeline}
  {plan plan' : LogicalPlanNode} {S : String → Prop}

/-- A query that both tables accept. -/
theorem runPipeline_shown {ord : Nat → Nat → Prop} (clock clock' : Clock)
    (hparse : parsePipeline pipelineJson = .ok parsed)
    (hbind : bindPipeline table parsed = .ok plan) (hbind' : bindPipeline table' parsed = .ok plan')
    (hord : plan.sorts = true → OrderKept ord)
    (htested : ∀ stage ∈ parsed.stages, ∀ name ∈ stage.testedFields, S name)
    (htable : table.Rectangular) (htable' : table'.Rectangular)
    (hagree : table.AgreeIn S ord table') :
    SameOutcome (fun result result' => result.outputSchema = outputSchemaOf plan ∧
        result'.outputSchema = outputSchemaOf plan' ∧
        List.Forall₂ (ShowsAgreeing S ord (outputSchemaOf plan).fields (outputSchemaOf plan').fields)
          result.rows result'.rows)
      (runPipeline clock table pipelineJson) (runPipeline clock' table' pipelineJson) := by
  obtain ⟨hbound, rfl⟩ := bindPipeline_wellBound hbind
  obtain ⟨hbound', rfl⟩ := bindPipeline_wellBound hbind'
  have hrebound : Rebound plan plan' := bindStages_rebound (.scan _ _) hbind hbind'
  have hnames : ∀ name ∈ (SortLimitToTopKRule.rewrite plan).1.testedFields, S name := by
    intro name hname
    rw [testedFields_rewrite] at hname
    rcases bindStages_testedFields hbind name hname with hnone | ⟨stage, hstage, hmem⟩
    · cases hnone
    · exact htested stage hstage name hmem
  have hrows := hagree.shows htable htable'
  rw [← hbound.rewrite.2, ← hbound'.rewrite.2] at hrows
  have hrelated := hrebound.rewrite.denote_shown (by rwa [sorts_rewrite]) hnames hrows
  rw [outputSchemaOf_rewrite, outputSchemaOf_rewrite] at hrelated
  rw [runPipeline_eq hparse hbind, runPipeline_eq hparse hbind']
  have hcollect := hrelated.bind fun opened opened' hopened => hopened.collect
  exact hcollect.map fun rows rows' hrows => ⟨rfl, rfl, hrows⟩

/-- A query that both tables accept, and that shows the same fields of both. -/
theorem runPipeline_agree (clock clock' : Clock)
    (hparse : parsePipeline pipelineJson = .ok parsed)
    (hbind : bindPipeline table parsed = .ok plan) (hbind' : bindPipeline table' parsed = .ok plan')
    (hshown : outputSchemaOf plan' = outputSchemaOf plan)
    (htested : ∀ stage ∈ parsed.stages, ∀ name ∈ stage.testedFields, S name)
    (hreturned : ∀ name ∈ (outputSchemaOf plan).fields, S name)
    (htable : table.Rectangular) (htable' : table'.Rectangular)
    (hagree : table.AgreeIn S (· = ·) table') :
    runPipeline clock table pipelineJson = runPipeline clock' table' pipelineJson := by
  have hsame := runPipeline_shown clock clock' hparse hbind hbind' (fun _ => orderKept_eq) htested
    htable htable' hagree
  rw [hshown] at hsame
  generalize runPipeline clock table pipelineJson = run at hsame ⊢
  generalize runPipeline clock' table' pipelineJson = run' at hsame ⊢
  cases hsame with
  | error e => rfl
  | @ok result result' related =>
    obtain ⟨hschema, hschema', hrows⟩ := related
    obtain ⟨rows, schema⟩ := result
    obtain ⟨rows', schema'⟩ := result'
    obtain rfl : schema = outputSchemaOf plan := hschema
    obtain rfl : schema' = outputSchemaOf plan := hschema'
    have hequal : rows = rows' :=
      List.forall₂_eq_eq_eq ▸ hrows.imp fun row row' h => h.eq hreturned
    rw [hequal]

end Runs

/-! ## Two collections of documents

  For what the tables were loaded from, which is where a field that plays no part can be added or
  left out. -/

theorem documentCell_absent {document : Json} {name : String}
    (h : name ∉ document.memberNames) : documentCell document name = .ok .null := by
  unfold documentCell
  split
  · rename_i members
    have hnone : Json.member? members name = none := by
      rw [Json.member?, Option.map_eq_none_iff, List.find?_eq_none]
      intro member hmem heq
      exact h (List.mem_map.mpr ⟨member, hmem, by simpa using heq⟩)
    rw [hnone]
  · rfl

/-- The cells of a loaded row, by name. -/
theorem LoadedFrom.named {documents : List Json} {table : Table} (h : LoadedFrom documents table)
    {document : Json × Nat} {row : Row} (hdocument : document.1 ∈ documents)
    (hrow : LoadedRow table.schema.fields document row) (name : String) :
    row.named table.schema name = (documentCell document.1 name).toOption.getD .null := by
  rw [Row.named]
  cases hindex : table.schema.indexOf name with
  | none =>
    have habsent : name ∉ document.1.memberNames := fun hmem =>
      Schema.indexOf_eq_none.mp hindex ((h.names name).mpr (List.mem_flatMap.mpr ⟨_, hdocument, hmem⟩))
    rw [documentCell_absent habsent]
    rfl
  | some index =>
    obtain ⟨value, hvalue, hcell⟩ := hrow.cells.getElem?_left (Schema.getElem?_of_indexOf _ hindex)
    rw [Option.bind, hvalue, hcell]
    rfl

theorem LoadedFrom.rectangular {documents : List Json} {table : Table}
    (h : LoadedFrom documents table) : table.Rectangular := by
  constructor
  · intro row hrow
    obtain ⟨document, -, hloaded⟩ := h.rows.exists_of_mem_right hrow
    exact hloaded.cells.length_eq.symm
  · exact h.ascending.imp fun hlt => ne_of_lt hlt

/-- The row of the document at a position. -/
theorem LoadedFrom.row_at {documents : List Json} {table : Table} (h : LoadedFrom documents table)
    {i : Nat} (hrow : i < table.rows.length) : ∃ hdocument : i < documents.length,
      (table.rows[i]).ordinal = i ∧ ∀ name, (table.rows[i]).named table.schema name =
        (documentCell documents[i] name).toOption.getD .null := by
  have hlength : i < documents.zipIdx.length := h.rows.length_eq ▸ hrow
  have hdocument : i < documents.length := List.length_zipIdx (l := documents) ▸ hlength
  have hloaded := (List.forall₂_iff_get.mp h.rows).2 i hlength hrow
  simp only [List.get_eq_getElem, List.getElem_zipIdx, Nat.zero_add] at hloaded
  exact ⟨hdocument, hloaded.ordinal, h.named (List.getElem_mem hdocument) hloaded⟩

/-- Documents that agree make rows that agree. -/
theorem LoadedFrom.agreeIn {S : String → Prop} {documents documents' : List Json}
    {table table' : Table} (h : LoadedFrom documents table) (h' : LoadedFrom documents' table')
    (hagree : List.Forall₂ (fun document document' => ∀ name, S name →
      documentCell document name = documentCell document' name) documents documents') :
    table.AgreeIn S (· = ·) table' := by
  have hlength : table.rows.length = table'.rows.length := by
    have hrows := h.rows.length_eq
    have hrows' := h'.rows.length_eq
    rw [List.length_zipIdx] at hrows hrows'
    rw [← hrows, ← hrows', hagree.length_eq]
  refine List.forall₂_iff_get.mpr ⟨hlength, fun i hi hi' => ?_⟩
  obtain ⟨hdocument, hordinal, hnamed⟩ := h.row_at hi
  obtain ⟨hdocument', hordinal', hnamed'⟩ := h'.row_at hi'
  have hsame := (List.forall₂_iff_get.mp hagree).2 i hdocument hdocument'
  simp only [List.get_eq_getElem] at hsame ⊢
  refine ⟨hordinal.trans hordinal'.symm, fun name hname => ?_⟩
  rw [hnamed, hnamed', hsame name hname]

/-- **Other fields.**  Two collections of documents that agree, one by one, in every field a query
    tests, sorts by or returns — whatever fields they have besides, and wherever these put the
    columns: a query that both accept, and that shows the same fields of both, ends alike on both,
    with the same rows or with the same exception. -/
theorem run_other_fields [StdLibrary] {documents documents' : List Json} {table table' : Table}
    {pipelineJson : Json} {parsed : ParsedPipeline} {plan plan' : LogicalPlanNode}
    (clock clock' : Clock) (hwf : (Json.array documents).WellFormed)
    (hwf' : (Json.array documents').WellFormed)
    (hload : loadTableFromJson (.array documents) = .ok table)
    (hload' : loadTableFromJson (.array documents') = .ok table')
    (hparse : parsePipeline pipelineJson = .ok parsed)
    (hbind : bindPipeline table parsed = .ok plan) (hbind' : bindPipeline table' parsed = .ok plan')
    (hshown : outputSchemaOf plan' = outputSchemaOf plan)
    (hagree : List.Forall₂ (fun document document' => ∀ name, Relevant table pipelineJson name →
      documentCell document name = documentCell document' name) documents documents') :
    runPipeline clock table pipelineJson = runPipeline clock' table' pipelineJson := by
  have hloaded := loadTableFromJson_loaded hwf hload
  have hloaded' := loadTableFromJson_loaded hwf' hload'
  refine runPipeline_agree clock clock' hparse hbind hbind' hshown ?_ ?_ hloaded.rectangular
    hloaded'.rectangular (hloaded.agreeIn hloaded' hagree)
  · intro stage hstage name hname
    exact ⟨parsed, plan, hparse, hbind, .inl ⟨stage, hstage, hname⟩⟩
  · intro name hname
    exact ⟨parsed, plan, hparse, hbind, .inr hname⟩

/-- The sample documents with one more field, which comes first. -/
def paddedDocuments : List Json :=
  [.object [("A", .string "x")], .object [("A", .boolean true), ("a", .numberUnsigned 1)]]

/-- The table they are loaded as. -/
def paddedTable : Table where
  schema := { fields := ["A", "a"] }
  rows := [{ ordinal := 0, values := [.string "x", .null] },
    { ordinal := 1, values := [.bool true, .int64 1] }]

theorem paddedDocuments_wellFormed : (Json.array paddedDocuments).WellFormed := by
  refine .array fun document hdocument => ?_
  simp only [paddedDocuments, List.mem_cons, List.not_mem_nil, or_false] at hdocument
  rcases hdocument with rfl | rfl
  · refine .object (List.pairwise_singleton _ _) fun m hm => ?_
    rw [List.mem_singleton.mp hm]
    exact .string "x"
  · refine .object (by decide) fun m hm => ?_
    simp only [List.mem_cons, List.not_mem_nil, or_false] at hm
    rcases hm with rfl | rfl
    · exact .boolean true
    · exact .numberUnsigned 1

/-- The column of `a` moves, the result does not. -/
theorem run_other_fields_sample :
    letI := StdLibrary.reference
    runPipeline Clock.still sampleTable publicPipelineJson =
      runPipeline Clock.still paddedTable publicPipelineJson := by
  have hrelevant : ∀ name, Relevant sampleTable publicPipelineJson name → name = "a" := by
    rintro name ⟨parsed, plan, hparse, hbind, hname⟩
    obtain rfl := Except.ok.inj hparse
    obtain rfl := Except.ok.inj hbind
    simpa [ParsedStage.testedFields, outputSchemaOf] using hname
  refine @run_other_fields StdLibrary.reference sampleDocuments paddedDocuments sampleTable
    paddedTable publicPipelineJson _ _ _ Clock.still Clock.still sampleDocuments_wellFormed
    paddedDocuments_wellFormed rfl rfl rfl rfl rfl rfl (.cons ?_ (.cons ?_ .nil))
  · intro name hname
    obtain rfl := hrelevant name hname
    rfl
  · intro name hname
    obtain rfl := hrelevant name hname
    rfl

end QueryLume
