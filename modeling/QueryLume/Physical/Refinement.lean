/-
  What a physical plan computes, and that it does.

  1. **The denotation** — `PlanStageTree.denote` says, without iterators and without state, what
     pulling a plan to its end yields: the exception `open()` ends with, or a feed of rows whose
     marks count the rows the leaf scan has given out.  A filter filters the feed of its child, a
     limit cuts it off, a sort collects it and prepares a list.

  2. **The relation** — `Emits` relates a state of an iterator to the feed it is going to give out,
     and `Opens` a constructed object to its denotation.  Both are for every clock and for any row
     that happens to be in the caller's variable.

  3. **The simulations** — each stage class is matched by one (`emits_of_simulation`): one
     `onGetNext` against one event of the feed.  For the streaming stages that is an induction over
     the feed of the child; for the blocking ones the drain loop is followed once, against the fold
     that fills the buffer, and afterwards the buffer is the feed.

  4. **The refinement (`opens_denote`)** — the stage objects of ANY plan, driven under any clock,
     behave as their denotation says.  What is proved about feeds from here on is proved about
     runs.
-/
import QueryLume.Foundation.Feed
import QueryLume.Physical.Planner

namespace QueryLume

open StdAlgorithms

/-- A feed of rows that may end with an exception. -/
abbrev RowFeed := Feed Row Exception

/-- A successful `open()`: how far it has read the table, and what pulling will give. -/
structure Opened where
  mark : Nat
  feed : RowFeed

/-! ## The denotation

  What a plan yields, without its objects: whether `open()` succeeds, and the rows and the end of
  what is pulled afterwards, with the marks of how far the table has been read. -/

section Denotation

variable [StdLibrary]

/-- Drain a feed into a buffer with `fill`, then sort the buffer.  An exception of the filling,
    of the feed or of the sort ends the opening, in this order; otherwise the rows come from the
    buffer and nothing more is read. -/
def Opened.block (fill : List Row → Row → Except Exception (List Row)) (comparator : RowComparator)
    (opened : Opened) : Except Exception Opened :=
  match opened.feed.rows.foldlM fill [] with
  | .error e => .error e
  | .ok buffer =>
    match opened.feed.finish with
    | some e => .error e
    | none =>
      (stdSort comparator.call buffer).map fun sorted =>
        { mark := opened.feed.total, feed := .ofList opened.feed.total sorted }

/-- How a sort fills its buffer: every row goes in. -/
def SortStage.fill (buffer : List Row) (row : Row) : Except Exception (List Row) :=
  .ok (buffer ++ [row])

/-- How a top-k fills its buffer: a row is offered to the bounded heap. -/
def TopKStage.fill (comparator : RowComparator) (k : Nat) :
    List Row → Row → Except Exception (List Row) :=
  BoundedHeap.offer comparator.call k

/-- The denotation, stage by stage.  A streaming stage changes the feed of its child, a blocking
    one opens by draining it.  Clocks, counters and lifecycle states do not occur. -/
def PlanStageTree.denote : PlanStageTree → Except Exception Opened
  | .collectionScanStage table => .ok { mark := 0, feed := .scan table.rows 0 }
  | .filterStage child predicate =>
    child.denote.map fun opened => { opened with feed := opened.feed.filter predicate.test }
  | .projectStage child columnIndices =>
    child.denote.map fun opened =>
      { opened with feed := opened.feed.mapRows (ProjectStage.project columnIndices) }
  | .sortStage child comparator =>
    child.denote.bind fun opened => opened.block SortStage.fill comparator
  | .limitStage child limit =>
    child.denote.map fun opened => { opened with feed := opened.feed.limit limit opened.mark }
  | .topKStage child comparator k =>
    child.denote.bind fun opened => opened.block (TopKStage.fill comparator k) comparator

end Denotation

/-! ## Iterators against feeds

  An object emits a feed when every pull answers with the next event, whatever the clock says and
  whatever row the caller passes in.  The definition follows the feed, so proofs about it are
  inductions on feeds. -/

section Emits

variable {σ : Type}

/-- One `getNext` against the next event of a feed; `R` relates what is left of both. -/
def Answers (scanned : σ → Nat) (R : RowFeed → σ → Prop) (feed : RowFeed)
    (result : Except Exception StageState) (output : Row) (stage : σ) : Prop :=
  match feed with
  | .stop none mark => result = .ok .kEof ∧ scanned stage = mark
  | .stop (some e) mark => result = .error e ∧ scanned stage = mark
  | .row r mark rest => result = .ok .kAdvanced ∧ output = r ∧ scanned stage = mark ∧ R rest stage

/-- Pulling this state gives out this feed, whatever the clock says and whatever rows the caller
    passes in. -/
def Emits (iterator : PlanStage σ) (scanned : σ → Nat) : RowFeed → σ → Prop
  | .stop none mark, s => ∀ clock row,
    (iterator.getNext clock s row).result = .ok .kEof ∧
      scanned (iterator.getNext clock s row).stage = mark
  | .stop (some e) mark, s => ∀ clock row,
    (iterator.getNext clock s row).result = .error e ∧
      scanned (iterator.getNext clock s row).stage = mark
  | .row r mark rest, s => ∀ clock row,
    (iterator.getNext clock s row).result = .ok .kAdvanced ∧
      (iterator.getNext clock s row).output = r ∧
      scanned (iterator.getNext clock s row).stage = mark ∧
      Emits iterator scanned rest (iterator.getNext clock s row).stage

/-- One call, one event. -/
theorem emits_iff {iterator : PlanStage σ} {scanned : σ → Nat} {feed : RowFeed} {s : σ} :
    Emits iterator scanned feed s ↔ ∀ clock row,
      Answers scanned (Emits iterator scanned) feed (iterator.getNext clock s row).result
        (iterator.getNext clock s row).output (iterator.getNext clock s row).stage := by
  cases feed with
  | stop finish mark => cases finish <;> exact Iff.rfl
  | row r mark rest => exact Iff.rfl

/-- Opening this state ends as `denoted` says: with its exception, or with the marks and the feed
    of what is opened. -/
def Opens (iterator : PlanStage σ) (scanned : σ → Nat) (s : σ) :
    Except Exception Opened → Prop
  | .error e => ∀ clock, (iterator.open clock s).result = .error e
  | .ok opened => ∀ clock,
    (iterator.open clock s).result = .ok () ∧
      scanned (iterator.open clock s).stage = opened.mark ∧
      Emits iterator scanned opened.feed (iterator.open clock s).stage

end Emits

/-! ## From hooks to stage objects

  The wrapper adds lifecycle checks and counters.  On an open stage neither shows in an answer, so
  it is enough to look at the hooks. -/

section Simulation

variable {F : Type} {hooks : StageHooks F}

/-- How far the source has been read, as a function of what hooks change. -/
def scannedBy (sc : Nat → F → Nat) (this : StageObject F) : Nat :=
  sc this.base.stats.rowsOut this.members

/-- **Simulation.**  When every `onGetNext` answers the next event of the feed it is related to,
    an open stage object emits the feed. -/
theorem emits_of_simulation (sc : Nat → F → Nat) {R : RowFeed → Nat → F → Prop}
    (hstep : ∀ feed clock (this : Protected F) output, R feed this.stats.rowsOut this.members →
      Answers (fun p : Protected F => sc p.stats.rowsOut p.members)
        (fun feed p => R feed p.stats.rowsOut p.members) feed
        (hooks.onGetNext clock this output).result (hooks.onGetNext clock this output).output
        (hooks.onGetNext clock this output).stage) :
    ∀ (feed : RowFeed) (this : StageObject F), this.base.state = .kOpen →
      R feed this.base.stats.rowsOut this.members →
      Emits hooks.planStage (scannedBy sc) feed this := by
  intro feed
  induction feed with
  | stop finish mark =>
    intro this hopen hR
    refine emits_iff.mpr fun clock row => ?_
    have h := hstep _ clock.tick
      { stats := { this.base.stats with getNextCalls := this.base.stats.getNextCalls + 1 }
        members := this.members } row hR
    obtain ⟨micros, herr, hok⟩ := PlanStageBase.getNext_admitted hooks clock row hopen
    cases finish with
    | none =>
      obtain ⟨hresult, hmark⟩ := h
      simp only [StageHooks.planStage, hok _ hresult]
      exact ⟨rfl, hmark⟩
    | some e =>
      obtain ⟨hresult, hmark⟩ := h
      simp only [StageHooks.planStage, herr _ hresult]
      exact ⟨rfl, hmark⟩
  | row r mark rest ih =>
    intro this hopen hR
    refine emits_iff.mpr fun clock row => ?_
    obtain ⟨hresult, houtput, hmark, hrest⟩ := hstep _ clock.tick
      { stats := { this.base.stats with getNextCalls := this.base.stats.getNextCalls + 1 }
        members := this.members } row hR
    obtain ⟨micros, -, hok⟩ := PlanStageBase.getNext_admitted hooks clock row hopen
    simp only [StageHooks.planStage, hok _ hresult]
    exact ⟨rfl, houtput, hmark, ih _ rfl hrest⟩

/-- One `onOpen` against a denotation: it fails alike, or leaves an object that emits the feed. -/
def OpenAnswers (hooks : StageHooks F) (sc : Nat → F → Nat) (denoted : Except Exception Opened)
    (call : OpenCall (Protected F)) : Prop :=
  match denoted with
  | .error e => call.result = .error e
  | .ok opened =>
    call.result = .ok () ∧ sc call.stage.stats.rowsOut call.stage.members = opened.mark ∧
      ∀ this : StageObject F, this.base.state = .kOpen →
        this.base.stats.rowsOut = call.stage.stats.rowsOut → this.members = call.stage.members →
        Emits hooks.planStage (scannedBy sc) opened.feed this

/-- Opening a fresh stage object, from what its `onOpen` does. -/
theorem opens_of_onOpen {sc : Nat → F → Nat} {members : F} {denoted : Except Exception Opened}
    (hopen : ∀ clock (stats : StageStats), stats.rowsOut = 0 →
      OpenAnswers hooks sc denoted (hooks.onOpen clock { stats, members })) :
    Opens hooks.planStage (scannedBy sc) { members := members } denoted := by
  have hfresh : ({ members := members } : StageObject F).base.state = .kUnopened := rfl
  have hadmit := fun clock : Clock => PlanStageBase.open_admitted hooks clock hfresh
  cases denoted with
  | error e =>
    intro clock
    obtain ⟨micros, -, herr⟩ := hadmit clock
    have h := herr e (hopen clock.tick { openCalls := 1 } rfl)
    simp only [StageHooks.planStage, h]
  | ok opened =>
    intro clock
    obtain ⟨micros, hok, -⟩ := hadmit clock
    obtain ⟨hresult, hmark, hemits⟩ := hopen clock.tick { openCalls := 1 } rfl
    have h := hok () hresult
    simp only [StageHooks.planStage, h]
    exact ⟨trivial, hmark, hemits _ rfl rfl rfl⟩

end Simulation

/-! ## The leaf -/

/-- The leaf gives out the rows of its table. -/
theorem scan_opens (table : Table) :
    Opens (CollectionScanStage.hooks table).planStage (scannedBy fun rowsOut _ => rowsOut)
      { members := {} } (.ok { mark := 0, feed := .scan table.rows 0 }) := by
  refine opens_of_onOpen fun clock stats hzero => ⟨rfl, hzero, fun this hopen hrowsOut hmembers => ?_⟩
  refine emits_of_simulation _ (R := fun feed rowsOut members =>
    feed = .scan (table.rows.drop members.nextIndex) rowsOut) ?_ _ this hopen ?_
  · rintro feed clock this output rfl
    simp only [CollectionScanStage.hooks, CollectionScanStage.onGetNext]
    cases hrow : table.rows[this.members.nextIndex]? with
    | none =>
      rw [List.drop_eq_nil_of_le (List.getElem?_eq_none_iff.mp hrow)]
      exact ⟨rfl, rfl⟩
    | some row =>
      obtain ⟨hlt, rfl⟩ := List.getElem?_eq_some_iff.mp hrow
      rw [List.drop_eq_getElem_cons hlt]
      exact ⟨rfl, rfl, rfl, rfl⟩
  · have hindex : this.members.nextIndex = 0 := by rw [hmembers]; rfl
    have hout : this.base.stats.rowsOut = 0 := hrowsOut.trans hzero
    rw [hindex, hout, List.drop_zero]

/-! ## The stages over a child

  Each class owes one lemma: what its hooks make of a child that emits a feed.  A streaming stage
  transforms the feed and opens its child; a blocking one folds it into its buffer while it is
  opened. -/

section Parents

variable {σ Own : Type} {child : PlanStage σ} {scanned : σ → Nat}

/-- What a parent has read is what its child has read. -/
abbrev childScanned (scanned : σ → Nat) : StageObject (ParentStage Own σ) → Nat :=
  scannedBy fun _ members => scanned members.child

/-- A streaming stage over a child that opens as `denoted`: its feed is a function `f` of the
    child's, its `onOpen` opens the child. -/
theorem streaming_opens {hooks : StageHooks (ParentStage Own σ)} (honOpen : hooks.onOpen = openChild child)
    {s : σ} {own : Own} {f : Opened → RowFeed} {denoted : Except Exception Opened}
    (hchild : Opens child scanned s denoted)
    (hemits : ∀ opened (this : StageObject (ParentStage Own σ)), this.base.state = .kOpen →
      this.members.own = own → scanned this.members.child = opened.mark →
      Emits child scanned opened.feed this.members.child →
      Emits hooks.planStage (childScanned scanned) (f opened) this) :
    Opens hooks.planStage (childScanned scanned) { members := { child := s, own := own } }
      (denoted.map fun opened => { opened with feed := f opened }) := by
  refine opens_of_onOpen fun clock stats _ => ?_
  cases denoted with
  | error e =>
    rw [honOpen]
    exact hchild clock
  | ok opened =>
    obtain ⟨hresult, hmark, hfeed⟩ := hchild clock
    rw [honOpen]
    refine ⟨hresult, hmark, fun this hopen _ hmembers => hemits opened this hopen ?_ ?_ ?_⟩
    · rw [hmembers]; rfl
    · rw [hmembers]; exact hmark
    · rw [hmembers]; exact hfeed

/-! ### Filter -/

/-- One call of a filter consumes the child's feed up to the first accepted row. -/
theorem filter_answers (predicate : Expression) {feed : RowFeed} {clock : Clock}
    {this : Protected (FilterStage σ)} {output : Row}
    (hchild : Emits child scanned feed this.members.child) :
    Answers (fun p : Protected (FilterStage σ) => scanned p.members.child)
      (fun rest p => ∃ feed, Emits child scanned feed p.members.child ∧
        feed.filter predicate.test = rest)
      (feed.filter predicate.test)
      (FilterStage.onGetNext child predicate clock this output).result
      (FilterStage.onGetNext child predicate clock this output).output
      (FilterStage.onGetNext child predicate clock this output).stage := by
  let Post := fun loop : LoopCall σ StageStats =>
    Answers scanned (fun rest s => ∃ feed, Emits child scanned feed s ∧
      feed.filter predicate.test = rest) (feed.filter predicate.test) loop.result loop.row loop.stage
  have hloop : Post (whileAdvanced child (FilterStage.body predicate) clock this.members.child
      this.stats {}) := by
    refine whileAdvanced_rule _ _ (I := fun _ s _ => ∃ rest, Emits child scanned rest s ∧
      rest.filter predicate.test = feed.filter predicate.test) ?_ _ _ _ _ ⟨feed, hchild, rfl⟩
    rintro clock s stats row ⟨rest, hrest, heq⟩
    have hnext := emits_iff.mp hrest clock row
    generalize child.getNext clock s row = call at hnext ⊢
    obtain ⟨result, output, s', clock'⟩ := call
    simp only [Post, ← heq]
    cases rest with
    | stop finish mark =>
      cases finish with
      | none => obtain ⟨rfl, rfl⟩ := hnext; exact ⟨rfl, rfl⟩
      | some e => obtain ⟨rfl, rfl⟩ := hnext; exact ⟨rfl, rfl⟩
    | row r mark rest =>
      obtain ⟨rfl, rfl, rfl, hleft⟩ := hnext
      simp only [RoundOk, FilterStage.body, Feed.filter]
      cases htest : predicate.test output with
      | error e => exact ⟨rfl, rfl⟩
      | ok accepted =>
        cases accepted with
        | true => exact ⟨rfl, rfl, rfl, rest, hleft, rfl⟩
        | false => exact ⟨rest, hleft, rfl⟩
  simp only [Post] at hloop
  unfold FilterStage.onGetNext
  generalize whileAdvanced child (FilterStage.body predicate) clock this.members.child
    this.stats {} = loop at hloop ⊢
  cases hfeed : feed.filter predicate.test with
  | stop finish mark =>
    rw [hfeed] at hloop
    cases finish <;> exact hloop
  | row r mark rest =>
    rw [hfeed] at hloop
    obtain ⟨hresult, hrow, hmark, hrest⟩ := hloop
    exact ⟨hresult, by simp only [hresult, if_true, hrow], hmark, hrest⟩

/-- A filter over what its child yields. -/
theorem filter_opens (predicate : Expression) {s : σ} {denoted : Except Exception Opened}
    (hchild : Opens child scanned s denoted) :
    Opens (FilterStage.hooks child predicate).planStage (childScanned scanned)
      { members := { child := s, own := () } }
      (denoted.map fun opened => { opened with feed := opened.feed.filter predicate.test }) := by
  refine streaming_opens rfl hchild fun opened this hopen _ _ hfeed => ?_
  refine emits_of_simulation (fun _ members => scanned members.child)
    (R := fun rest _ members => ∃ feed, Emits child scanned feed members.child ∧
      feed.filter predicate.test = rest) ?_ _ this hopen ⟨_, hfeed, rfl⟩
  rintro _ clock this output ⟨feed, hfeed, rfl⟩
  exact filter_answers predicate hfeed

/-! ### Project -/

/-- A projection over what its child yields. -/
theorem project_opens (columnIndices : List Nat) {s : σ} {denoted : Except Exception Opened}
    (hchild : Opens child scanned s denoted) :
    Opens (ProjectStage.hooks child columnIndices).planStage (childScanned scanned)
      { members := { child := s, own := () } }
      (denoted.map fun opened =>
        { opened with feed := opened.feed.mapRows (ProjectStage.project columnIndices) }) := by
  refine streaming_opens rfl hchild fun opened this hopen _ _ hfeed => ?_
  refine emits_of_simulation (fun _ members => scanned members.child)
    (R := fun rest _ members => ∃ feed, Emits child scanned feed members.child ∧
      feed.mapRows (ProjectStage.project columnIndices) = rest) ?_ _ this hopen ⟨_, hfeed, rfl⟩
  rintro _ clock this output ⟨feed, hfeed, rfl⟩
  have hnext := emits_iff.mp hfeed clock {}
  simp only [ProjectStage.hooks, ProjectStage.onGetNext]
  generalize child.getNext clock this.members.child {} = call at hnext ⊢
  obtain ⟨result, row, s', clock'⟩ := call
  cases feed with
  | stop finish mark =>
    cases finish with
    | none => obtain ⟨rfl, rfl⟩ := hnext; exact ⟨rfl, rfl⟩
    | some e => obtain ⟨rfl, rfl⟩ := hnext; exact ⟨rfl, rfl⟩
  | row r mark rest =>
    obtain ⟨rfl, rfl, rfl, hrest⟩ := hnext
    simp only [Feed.mapRows]
    cases hrow : ProjectStage.project columnIndices row with
    | error e => exact ⟨rfl, rfl⟩
    | ok projected => exact ⟨rfl, rfl, rfl, rest, hrest, rfl⟩

/-! ### Limit -/

/-- A limit: the feed is cut off, and the child is asked no further. -/
theorem limit_opens (limit : Nat) {s : σ} {denoted : Except Exception Opened}
    (hchild : Opens child scanned s denoted) :
    Opens (LimitStage.hooks child limit).planStage (childScanned scanned)
      { members := { child := s, own := {} } }
      (denoted.map fun opened =>
        { opened with feed := opened.feed.limit limit opened.mark }) := by
  refine streaming_opens rfl hchild fun opened this hopen hown hmark hfeed => ?_
  refine emits_of_simulation (fun _ members => scanned members.child)
    (R := fun rest _ members => ∃ feed, Emits child scanned feed members.child ∧
      feed.limit (limit - members.own.emitted) (scanned members.child) = rest)
    ?_ _ this hopen ⟨_, hfeed, by rw [hown, hmark]⟩
  rintro _ clock this output ⟨feed, hfeed, rfl⟩
  simp only [LimitStage.hooks, LimitStage.onGetNext]
  by_cases hfull : limit ≤ this.members.own.emitted
  · rw [if_pos hfull, Nat.sub_eq_zero_of_le hfull]
    cases feed <;> exact ⟨rfl, rfl⟩
  · rw [if_neg hfull]
    have hleft : limit - this.members.own.emitted =
        (limit - (this.members.own.emitted + 1)) + 1 := by omega
    have hnext := emits_iff.mp hfeed clock output
    generalize child.getNext clock this.members.child output = call at hnext ⊢
    obtain ⟨result, row, s', clock'⟩ := call
    rw [hleft]
    cases feed with
    | stop finish mark =>
      cases finish with
      | none => obtain ⟨rfl, rfl⟩ := hnext; exact ⟨rfl, rfl⟩
      | some e => obtain ⟨rfl, rfl⟩ := hnext; exact ⟨rfl, rfl⟩
    | row r mark rest =>
      obtain ⟨rfl, rfl, rfl, hrest⟩ := hnext
      exact ⟨rfl, rfl, rfl, rest, hrest, rfl⟩

/-! ### The blocking stages -/

/-- A loop body fills the buffer as `fill` says, and counts the row. -/
def FillsBy (body : Drain → Row → Flow Drain)
    (fill : List Row → Row → Except Exception (List Row)) : Prop :=
  ∀ drain row,
    let stats := { drain.stats with rowsIn := drain.stats.rowsIn + 1 }
    match fill drain.buffer row with
    | .error e => body drain row = .throw e { stats, buffer := drain.buffer }
    | .ok buffer => ∃ left, body drain row = .again { stats, buffer } left

/-- The body of a sort appends. -/
theorem SortStage.body_fillsBy : FillsBy SortStage.body SortStage.fill :=
  fun _ row => ⟨row.movedFrom, rfl⟩

/-- The body of a top-k offers the row to its heap. -/
theorem TopKStage.body_fillsBy [StdLibrary] (comparator : RowComparator) (k : Nat) :
    FillsBy (TopKStage.body comparator k) (TopKStage.fill comparator k) := by
  intro drain row
  obtain ⟨stats, buffer⟩ := drain
  simp only [TopKStage.fill, BoundedHeap.offer, TopKStage.body]
  by_cases hk : k = 0
  · rw [if_pos hk, if_pos hk]
    exact ⟨row, rfl⟩
  · rw [if_neg hk, if_neg hk]
    by_cases hroom : buffer.length < k
    · rw [if_pos hroom, if_pos hroom]
      cases pushHeap comparator.call (buffer ++ [row]) with
      | error e => rfl
      | ok buffer' => exact ⟨_, rfl⟩
    · rw [if_neg hroom, if_neg hroom]
      cases buffer with
      | nil => exact absurd (Nat.pos_of_ne_zero hk) hroom
      | cons front rest =>
        simp only
        cases comparator.call row front with
        | error e => rfl
        | ok better =>
          cases better with
          | false => exact ⟨_, rfl⟩
          | true =>
            simp only
            cases popHeap comparator.call (front :: rest) with
            | error e => rfl
            | ok popped =>
              simp only
              cases pushHeap comparator.call (popped.dropLast ++ [row]) with
              | error e => rfl
              | ok buffer' => exact ⟨_, rfl⟩

/-- The drain loop over a feed is the fold of `fill` over its rows. -/
theorem drain_feed {body : Drain → Row → Flow Drain}
    {fill : List Row → Row → Except Exception (List Row)} (hbody : FillsBy body fill)
    (clock : Clock) (drain : Drain) {feed : RowFeed} {s : σ}
    (hfeed : Emits child scanned feed s) :
    let loop := whileAdvanced child body clock s drain {}
    match feed.rows.foldlM fill drain.buffer with
    | .error e => loop.result = .error e
    | .ok buffer =>
      match feed.finish with
      | some e => loop.result = .error e
      | none => loop.result = .ok .kEof ∧ loop.locals.buffer = buffer ∧
          loop.locals.stats.rowsOut = drain.stats.rowsOut ∧ scanned loop.stage = feed.total := by
  refine whileAdvanced_rule child body
    (I := fun _ s' (drain' : Drain) => ∃ rest, Emits child scanned rest s' ∧
      rest.rows.foldlM fill drain'.buffer = feed.rows.foldlM fill drain.buffer ∧
      rest.finish = feed.finish ∧ rest.total = feed.total ∧
      drain'.stats.rowsOut = drain.stats.rowsOut)
    (Q := fun loop => match feed.rows.foldlM fill drain.buffer with
      | .error e => loop.result = .error e
      | .ok buffer =>
        match feed.finish with
        | some e => loop.result = .error e
        | none => loop.result = .ok .kEof ∧ loop.locals.buffer = buffer ∧
            loop.locals.stats.rowsOut = drain.stats.rowsOut ∧ scanned loop.stage = feed.total)
    ?_ clock s drain {} ⟨feed, hfeed, rfl, rfl, rfl, rfl⟩
  rintro clock s' drain' row ⟨rest, hrest, hfold, hfinish, htotal, hout⟩
  have hnext := emits_iff.mp hrest clock row
  generalize child.getNext clock s' row = call at hnext ⊢
  obtain ⟨result, output, s'', clock'⟩ := call
  cases rest with
  | stop finish mark =>
    have hbuffer : feed.rows.foldlM fill drain.buffer = .ok drain'.buffer := hfold.symm
    cases finish with
    | none =>
      obtain ⟨rfl, rfl⟩ := hnext
      simp only [RoundOk, hbuffer, ← hfinish, Feed.finish]
      exact ⟨trivial, trivial, hout, htotal⟩
    | some e =>
      obtain ⟨rfl, rfl⟩ := hnext
      simp only [RoundOk, hbuffer, ← hfinish, Feed.finish]
  | row r mark rest =>
    obtain ⟨rfl, rfl, rfl, hleft⟩ := hnext
    have hround := hbody drain' output
    rw [Feed.rows, List.foldlM_cons] at hfold
    simp only [RoundOk]
    cases hfill : fill drain'.buffer output with
    | error e =>
      rw [hfill] at hround hfold
      have herr : feed.rows.foldlM fill drain.buffer = .error e := hfold.symm
      simp only at hround
      simp only [hround, herr]
    | ok buffer =>
      rw [hfill] at hround hfold
      obtain ⟨left, hround⟩ := hround
      simp only [hround]
      exact ⟨rest, hleft, hfold, hfinish, htotal, hout⟩

/-- A buffer that was sorted is given out from the front. -/
theorem blocking_emits (scanned : σ → Nat) {hooks : StageHooks (ParentStage RowBuffer σ)}
    (honGetNext : hooks.onGetNext = BlockingStage.onGetNext) {this : StageObject (ParentStage RowBuffer σ)}
    (hopen : this.base.state = .kOpen) (hindex : this.members.own.nextIndex = 0) :
    Emits hooks.planStage (childScanned scanned)
      (.ofList (scanned this.members.child) this.members.own.buffer) this := by
  refine emits_of_simulation (fun _ members => scanned members.child)
    (R := fun feed _ members =>
      feed = .ofList (scanned members.child) (members.own.buffer.drop members.own.nextIndex))
    ?_ _ this hopen (by rw [hindex, List.drop_zero])
  rintro _ clock this output rfl
  simp only [honGetNext, BlockingStage.onGetNext]
  cases hrow : this.members.own.buffer[this.members.own.nextIndex]? with
  | none =>
    rw [List.drop_eq_nil_of_le (List.getElem?_eq_none_iff.mp hrow)]
    exact ⟨rfl, rfl⟩
  | some row =>
    obtain ⟨hlt, rfl⟩ := List.getElem?_eq_some_iff.mp hrow
    rw [List.drop_eq_getElem_cons hlt]
    -- the slot that was moved out lies before the rows that are still to come
    refine ⟨rfl, rfl, rfl, congrArg (Feed.ofList _) ?_⟩
    exact (List.drop_set_of_lt (Nat.lt_succ_self _)).symm

/-- **Blocking stages.**  Draining, sorting and giving out, against the fold of `fill` and the
    sorted list. -/
theorem blocking_opens [StdLibrary] {name : String} {body : Drain → Row → Flow Drain}
    {fill : List Row → Row → Except Exception (List Row)} (hbody : FillsBy body fill)
    (comparator : RowComparator) {s : σ} {denoted : Except Exception Opened}
    (hchild : Opens child scanned s denoted) :
    Opens (BlockingStage.hooks name child body comparator).planStage (childScanned scanned)
      { members := { child := s, own := {} } }
      (denoted.bind fun opened => opened.block fill comparator) := by
  refine opens_of_onOpen fun clock stats _ => ?_
  simp only [BlockingStage.hooks, BlockingStage.onOpen]
  cases denoted with
  | error e =>
    have h : (child.open clock s).result = .error e := hchild clock
    rw [h]
    rfl
  | ok opened =>
    obtain ⟨hresult, -, hfeed⟩ := hchild clock
    have hdrain := drain_feed hbody (child.open clock s).clock
      { stats := stats, buffer := [] } hfeed
    rw [hresult]
    simp only [Except.bind, Opened.block] at hdrain ⊢
    generalize whileAdvanced child body _ _ _ _ = loop at hdrain ⊢
    cases hfold : opened.feed.rows.foldlM fill [] with
    | error e =>
      rw [hfold] at hdrain
      rw [BlockingStage.sortDrained, show loop.result = _ from hdrain]
      rfl
    | ok buffer =>
      rw [hfold] at hdrain
      cases hfinish : opened.feed.finish with
      | some e =>
        rw [hfinish] at hdrain
        rw [BlockingStage.sortDrained, show loop.result = _ from hdrain]
        rfl
      | none =>
        rw [hfinish] at hdrain
        obtain ⟨hloop, rfl, -, hscanned⟩ := hdrain
        rw [BlockingStage.sortDrained, hloop]
        cases hsort : stdSort comparator.call loop.locals.buffer with
        | error e =>
          simp only [hsort]
          rfl
        | ok sorted =>
          simp only [hsort, Except.map]
          refine ⟨rfl, hscanned, fun this hopen _ hmembers => ?_⟩
          have hfilled : (BlockingStage.hooks name child body comparator).onGetNext =
              BlockingStage.onGetNext := rfl
          have h := blocking_emits scanned hfilled hopen (by rw [hmembers]; rfl)
          rw [hmembers] at h
          exact hscanned ▸ h

end Parents

/-! ## Whole plans

  By induction on the plan, one case for each class. -/

/-- How many rows the leaf scan of a plan has given out. -/
def PlanStageTree.scanned (tree : PlanStageTree) (this : tree.Object) : Nat :=
  (tree.leafScan this).rowsOut

/-- **Refinement.**  The stage objects of a plan do what its denotation says. -/
theorem PlanStageTree.opens_denote [StdLibrary] :
    ∀ tree : PlanStageTree, Opens tree.planStage tree.scanned tree.constructed tree.denote
  | .collectionScanStage table => scan_opens table
  | .filterStage child predicate => filter_opens predicate child.opens_denote
  | .projectStage child columnIndices => project_opens columnIndices child.opens_denote
  | .sortStage child comparator =>
    blocking_opens SortStage.body_fillsBy comparator child.opens_denote
  | .limitStage child limit => limit_opens limit child.opens_denote
  | .topKStage child comparator k =>
    blocking_opens (TopKStage.body_fillsBy comparator k) comparator child.opens_denote

end QueryLume
