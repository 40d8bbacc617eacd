/-
  The invariants of the six stage classes.

  A parent and its child are tied together by `Driven`: the child is in a known state, it has
  delivered exactly the rows the parent has counted in, and, while nothing has thrown, it has never
  been called after its EOF.  `ParentInv` is the shape all five parents share; what is particular
  to a class is a predicate on its own members:

  * a filter and a projection have none;
  * a limit has counted the rows it gave out (`CountsEmitted`);
  * the blocking stages hold the rows they have not given out yet, and only while they are open
    (`HoldsBuffer`).

  Each class shows `HooksOk` once, with the loops followed by the rule of `whileAdvanced`.  The two
  blocking classes share one proof (`blocking_ok`), in which only the body of the drain loop is
  open.
-/
import QueryLume.Physical.Lifecycle
import QueryLume.Physical.Refinement

namespace QueryLume

open StdAlgorithms

/-! ## Driving a child

  What a parent knows of the child it calls: the state the child is in and how many rows it has
  given out so far.  One lemma per call. -/

section Driving

variable {σ : Type} {child : PlanStage σ} {cbase : σ → PlanStageBase} {CInv : Bool → σ → Prop}

/-- The child is in `state` and has delivered `rows` rows. -/
structure Driven (cbase : σ → PlanStageBase) (CInv : Bool → σ → Prop) (calm : Bool)
    (state : LifecycleState) (s : σ) (rows : Nat) : Prop where
  inv : CInv calm s
  state : (cbase s).state = state
  rows : rows = (cbase s).stats.rowsOut
  balanced : calm = true → Balanced (cbase s)

/-- The tie holds after an exception too, without the equations. -/
theorem Driven.weaken (hchild : Contract child cbase CInv) {calm : Bool} {state : LifecycleState}
    {s : σ} {rows : Nat} (h : Driven cbase CInv calm state s rows) :
    Driven cbase CInv false state s rows :=
  ⟨hchild.weaken h.inv, h.state, h.rows, fun hcalm => (by cases hcalm)⟩

/-- **Opening a child.** -/
theorem Driven.opened (hchild : Contract child cbase CInv) (clock : Clock) {calm : Bool} {s : σ}
    {rows : Nat} (h : Driven cbase CInv calm .kUnopened s rows) :
    match (child.open clock s).result with
    | .ok () => Driven cbase CInv calm .kOpen (child.open clock s).stage rows
    | .error e => Driven cbase CInv false .kClosed (child.open clock s).stage rows ∧
        e.NotLifecycle := by
  obtain ⟨hrows, hresult⟩ := hchild.opened clock h.inv h.state
  generalize child.open clock s = call at hrows hresult ⊢
  obtain ⟨result, s', clock'⟩ := call
  cases result with
  | error e =>
    exact ⟨⟨hresult.1, hresult.2.1, h.rows.trans hrows.symm, fun hcalm => (by cases hcalm)⟩,
      hresult.2.2⟩
  | ok u =>
    obtain ⟨hinv, hstate, hcalls⟩ := hresult
    refine ⟨hinv, hstate, h.rows.trans hrows.symm, fun hcalm => ?_⟩
    have hbalanced := h.balanced hcalm
    simp only [Balanced, h.state] at hbalanced
    simp only at hrows hcalls hstate
    simp only [Balanced, hstate, hcalls, hrows, hbalanced]

/-- **Pulling a child** that is open. -/
theorem Driven.pulled (hchild : Contract child cbase CInv) (clock : Clock) {calm : Bool} {s : σ}
    (row : Row) {rows : Nat} (h : Driven cbase CInv calm .kOpen s rows) :
    match (child.getNext clock s row).result with
    | .ok .kAdvanced => Driven cbase CInv calm .kOpen (child.getNext clock s row).stage (rows + 1)
    | .ok .kEof => Driven cbase CInv calm .kEof (child.getNext clock s row).stage rows ∧
        (child.getNext clock s row).output = row
    | .error e => Driven cbase CInv false .kOpen (child.getNext clock s row).stage rows ∧
        (child.getNext clock s row).output = row ∧ e.NotLifecycle := by
  obtain ⟨hcalls, hresult⟩ := hchild.next clock row h.inv h.state
  have hrows := h.rows
  have hbalanced : calm = true → (cbase s).stats.getNextCalls = (cbase s).stats.rowsOut := by
    intro hcalm
    have hb := h.balanced hcalm
    simpa only [Balanced, h.state] using hb
  generalize child.getNext clock s row = call at hcalls hresult ⊢
  obtain ⟨result, output, s', clock'⟩ := call
  simp only at hcalls hresult
  cases result with
  | error e =>
    obtain ⟨hinv, hstate, hout, houtput, hnot⟩ := hresult
    exact ⟨⟨hinv, hstate, hrows.trans hout.symm, fun hcalm => (by cases hcalm)⟩, houtput, hnot⟩
  | ok state =>
    cases state with
    | kEof =>
      obtain ⟨hinv, hstate, hout, houtput⟩ := hresult
      refine ⟨⟨hinv, hstate, hrows.trans hout.symm, fun hcalm => ?_⟩, houtput⟩
      simp only [Balanced, hstate, hcalls, hout, hbalanced hcalm]
    | kAdvanced =>
      obtain ⟨hinv, hstate, hout⟩ := hresult
      refine ⟨hinv, hstate, by rw [hrows, hout], fun hcalm => ?_⟩
      simp only [Balanced, hstate, hcalls, hout, hbalanced hcalm]

/-- **Closing a child.** -/
theorem Driven.closed (hchild : Contract child cbase CInv) {calm : Bool} {state : LifecycleState}
    {s : σ} {rows : Nat} (h : Driven cbase CInv calm state s rows) :
    Driven cbase CInv calm .kClosed (child.close s) rows := by
  obtain ⟨hinv, hstate, hrows, hcalls⟩ := hchild.closed h.inv
  refine ⟨hinv, hstate, h.rows.trans hrows.symm, fun hcalm => ?_⟩
  have hbalanced := h.balanced hcalm
  simp only [Balanced, hstate, hcalls, hrows]
  unfold Balanced at hbalanced
  split at hbalanced
  · exact .inl hbalanced
  · exact .inl hbalanced
  · exact .inr hbalanced
  · exact hbalanced

end Driving

/-! ## The shape of a parent

  The states of a parent and of its child are tied: a streaming stage and its child are open
  together, a blocking one has driven its child to the end before it is open itself. -/

/-- The states a child can be in, given its parent's.  An open streaming stage still has an open
    child; an open blocking stage has driven its child to the end. -/
def ChildState (streaming : Bool) : LifecycleState → LifecycleState → Prop
  | .kUnopened, child => child = .kUnopened
  | .kOpen, child => child = if streaming then .kOpen else .kEof
  | .kEof, child => child = .kOpen ∨ child = .kEof
  | .kClosed, child => child = .kClosed

section Parents

variable {σ Own : Type} {child : PlanStage σ} {cbase : σ → PlanStageBase} {CInv : Bool → σ → Prop}
  {streaming : Bool}
  {Holds : LifecycleState → Nat → Nat → Own → Prop}

/-- The members of a parent: its child, driven as far as it has counted, and its own. -/
structure ParentInv (cbase : σ → PlanStageBase) (CInv : Bool → σ → Prop) (streaming : Bool)
    (Holds : LifecycleState → Nat → Nat → Own → Prop) (calm : Bool) (state : LifecycleState)
    (rowsIn rowsOut : Nat) (members : ParentStage Own σ) : Prop where
  driven : ∃ childState, ChildState streaming state childState ∧
    Driven cbase CInv calm childState members.child rowsIn
  rowsOut_le : rowsOut ≤ rowsIn
  own : Holds state rowsIn rowsOut members.own

theorem ParentInv.weaken (hchild : Contract child cbase CInv) {calm : Bool}
    {state : LifecycleState} {rowsIn rowsOut : Nat} {members : ParentStage Own σ}
    (h : ParentInv cbase CInv streaming Holds calm state rowsIn rowsOut members) :
    ParentInv cbase CInv streaming Holds false state rowsIn rowsOut members := by
  obtain ⟨⟨childState, hstate, hdriven⟩, hle, hown⟩ := h
  exact ⟨⟨childState, hstate, hdriven.weaken hchild⟩, hle, hown⟩

/-- Closing the child closes the parent's members. -/
theorem ParentInv.close (hchild : Contract child cbase CInv) {calm : Bool}
    {state : LifecycleState} {rowsIn rowsOut : Nat} {members : ParentStage Own σ} {own : Own}
    (h : ParentInv cbase CInv streaming Holds calm state rowsIn rowsOut members)
    (hown : Holds .kClosed rowsIn rowsOut own) :
    ParentInv cbase CInv streaming Holds calm .kClosed rowsIn rowsOut
      { child := child.close members.child, own := own } := by
  obtain ⟨⟨childState, -, hdriven⟩, hle, -⟩ := h
  exact ⟨⟨.kClosed, rfl, hdriven.closed hchild⟩, hle, hown⟩

/-- The child of an unopened parent is unopened and has delivered nothing. -/
theorem ParentInv.unopened {calm : Bool} {rowsIn rowsOut : Nat} {members : ParentStage Own σ}
    (h : ParentInv cbase CInv streaming Holds calm .kUnopened rowsIn rowsOut members) :
    Driven cbase CInv calm .kUnopened members.child rowsIn := by
  obtain ⟨⟨childState, hstate, hdriven⟩, -, -⟩ := h
  have hunopened : childState = .kUnopened := hstate
  subst hunopened
  exact hdriven

/-- The child of an open streaming parent is open. -/
theorem ParentInv.openStreaming {calm : Bool} {rowsIn rowsOut : Nat} {members : ParentStage Own σ}
    (h : ParentInv cbase CInv true Holds calm .kOpen rowsIn rowsOut members) :
    Driven cbase CInv calm .kOpen members.child rowsIn := by
  obtain ⟨⟨childState, hstate, hdriven⟩, -, -⟩ := h
  have hopen : childState = .kOpen := hstate
  subst hopen
  exact hdriven

/-! ## Streaming stages

  They open their child when they are opened and close it when they are closed, so all that differs
  between them is `onGetNext`. -/

/-- What a streaming stage's own members satisfy does not depend on its state or its input. -/
def OwnAlways (P : Nat → Own → Prop) : LifecycleState → Nat → Nat → Own → Prop :=
  fun _ _ rowsOut own => P rowsOut own

variable {P : Nat → Own → Prop}

/-- A streaming stage owes the protocol only what its `onGetNext` does. -/
theorem streaming_ok (hchild : Contract child cbase CInv) {hooks : StageHooks (ParentStage Own σ)}
    (honOpen : hooks.onOpen = openChild child)
    (honClose : hooks.onClose = fun members => { members with child := child.close members.child })
    (honGetNext : ∀ clock (this : Protected (ParentStage Own σ)) output calm,
      Driven cbase CInv calm .kOpen this.members.child this.stats.rowsIn →
      this.stats.rowsOut ≤ this.stats.rowsIn → P this.stats.rowsOut this.members.own →
      let call := hooks.onGetNext clock this output
      let J := ParentInv cbase CInv true (OwnAlways P)
      KeepsCalls this.stats call.stage.stats ∧
      match call.result with
      | .ok .kAdvanced => call.stage.stats.rowsOut = this.stats.rowsOut + 1 ∧
          J calm .kOpen call.stage.stats.rowsIn call.stage.stats.rowsOut call.stage.members
      | .ok .kEof => call.stage.stats.rowsOut = this.stats.rowsOut ∧ call.output = output ∧
          J calm .kEof call.stage.stats.rowsIn call.stage.stats.rowsOut call.stage.members
      | .error e => call.stage.stats.rowsOut = this.stats.rowsOut ∧ call.output = output ∧
          J false .kOpen call.stage.stats.rowsIn call.stage.stats.rowsOut call.stage.members ∧
          e.NotLifecycle) :
    HooksOk hooks (ParentInv cbase CInv true (OwnAlways P)) where
  weaken := fun h => h.weaken hchild
  rowsOut_le := fun h => h.rowsOut_le
  onOpen clock this calm hJ hzero := by
    have hopened := hJ.unopened.opened hchild clock
    have hown := hJ.own
    rw [hzero] at hown
    rw [honOpen, honClose]
    simp only [openChild]
    generalize child.open clock this.members.child = call at hopened ⊢
    obtain ⟨result, s', clock'⟩ := call
    cases result with
    | ok u => exact ⟨⟨rfl, rfl⟩, hzero, ⟨.kOpen, rfl, hopened⟩, Nat.zero_le _, hown⟩
    | error e =>
      exact ⟨⟨rfl, rfl⟩, hzero, ⟨⟨.kClosed, rfl, hopened.1.closed hchild⟩, Nat.zero_le _, hown⟩,
        hopened.2⟩
  onGetNext clock this output calm hJ :=
    honGetNext clock this output calm hJ.openStreaming hJ.rowsOut_le hJ.own
  onClose := by
    intro calm state rowsIn rowsOut members hJ _
    rw [honClose]
    exact hJ.close hchild hJ.own

/-! ### Filter and project -/

/-- Nothing of its own to keep. -/
abbrev NoOwn : Nat → Unit → Prop := fun _ _ => True

/-- A filter, whose loop may pull many rows in one call. -/
theorem FilterStage.hooksOk (hchild : Contract child cbase CInv) (predicate : Expression) :
    HooksOk (FilterStage.hooks child predicate) (ParentInv cbase CInv true (OwnAlways NoOwn)) := by
  refine streaming_ok hchild rfl rfl fun clock this output calm hdriven hle _ => ?_
  -- the counters during the loop: every candidate is counted in, none is counted out
  let I := fun (_ : Clock) (s : σ) (stats : StageStats) =>
    Driven cbase CInv calm .kOpen s stats.rowsIn ∧ KeepsCalls this.stats stats ∧
      stats.rowsOut = this.stats.rowsOut ∧ stats.rowsOut ≤ stats.rowsIn
  let Q := fun loop : LoopCall σ StageStats =>
    KeepsCalls this.stats loop.locals ∧ loop.locals.rowsOut ≤ loop.locals.rowsIn ∧
    match loop.result with
    | .ok .kAdvanced => loop.locals.rowsOut = this.stats.rowsOut + 1 ∧
        Driven cbase CInv calm .kOpen loop.stage loop.locals.rowsIn
    | .ok .kEof => loop.locals.rowsOut = this.stats.rowsOut ∧
        Driven cbase CInv calm .kEof loop.stage loop.locals.rowsIn
    | .error e => loop.locals.rowsOut = this.stats.rowsOut ∧
        Driven cbase CInv false .kOpen loop.stage loop.locals.rowsIn ∧ e.NotLifecycle
  have hloop : Q (whileAdvanced child (FilterStage.body predicate) clock this.members.child
      this.stats {}) := by
    refine whileAdvanced_rule _ _ (I := I) ?_ _ _ _ _ ⟨hdriven, ⟨rfl, rfl⟩, rfl, hle⟩
    rintro clock s stats row ⟨hdriven, hkeeps, hout, hle⟩
    have hpulled := hdriven.pulled hchild clock row
    generalize child.getNext clock s row = call at hpulled ⊢
    obtain ⟨result, candidate, s', clock'⟩ := call
    cases result with
    | error e => exact ⟨hkeeps, hle, hout, hpulled.1, hpulled.2.2⟩
    | ok state =>
      cases state with
      | kEof => exact ⟨hkeeps, hle, hout, hpulled.1⟩
      | kAdvanced =>
        simp only [RoundOk, FilterStage.body]
        cases htest : predicate.test candidate with
        | error e =>
          exact ⟨⟨hkeeps.1, hkeeps.2⟩, Nat.le_succ_of_le hle, hout, hpulled.weaken hchild,
            Expression.test_notLifecycle htest⟩
        | ok accepted =>
          cases accepted with
          | true => exact ⟨⟨hkeeps.1, hkeeps.2⟩, Nat.succ_le_succ hle, by simp only [hout], hpulled⟩
          | false => exact ⟨hpulled, ⟨hkeeps.1, hkeeps.2⟩, hout, Nat.le_succ_of_le hle⟩
  simp only [FilterStage.hooks, FilterStage.onGetNext]
  generalize whileAdvanced child (FilterStage.body predicate) clock this.members.child this.stats {}
    = loop at hloop ⊢
  obtain ⟨result, stats, row, s', clock'⟩ := loop
  obtain ⟨hkeeps, hle', hresult⟩ := hloop
  refine ⟨hkeeps, ?_⟩
  cases result with
  | error e =>
    exact ⟨hresult.1, rfl, ⟨⟨.kOpen, rfl, hresult.2.1⟩, hle', trivial⟩, hresult.2.2⟩
  | ok state =>
    cases state with
    | kEof => exact ⟨hresult.1, rfl, ⟨.kEof, .inr rfl, hresult.2⟩, hle', trivial⟩
    | kAdvanced => exact ⟨hresult.1, ⟨.kOpen, rfl, hresult.2⟩, hle', trivial⟩

/-- What projecting a row can end with. -/
theorem ProjectStage.project_error {columnIndices : List Nat} {input : Row} {e : Exception}
    (h : ProjectStage.project columnIndices input = .error e) : e = .undefinedBehavior := by
  have hcells : ∀ (columnIndices : List Nat) (cells : List (Option Value)) (e : Exception),
      ProjectStage.moveCells cells columnIndices = .error e → e = .undefinedBehavior := by
    intro columnIndices
    induction columnIndices with
    | nil => intro cells e h; cases h
    | cons index indices ih =>
      intro cells e h
      rw [ProjectStage.moveCells] at h
      split at h
      · split at h
        · rename_i e' hrest
          exact Except.error.inj h ▸ ih _ _ hrest
        · cases h
      · exact (Except.error.inj h).symm
  rw [ProjectStage.project] at h
  cases hmove : ProjectStage.moveCells (input.values.map some) columnIndices with
  | error e' =>
    rw [hmove] at h
    exact Except.error.inj h ▸ hcells _ _ _ hmove
  | ok values => rw [hmove] at h; cases h

/-- A projection: one row in, one row out. -/
theorem ProjectStage.hooksOk (hchild : Contract child cbase CInv) (columnIndices : List Nat) :
    HooksOk (ProjectStage.hooks child columnIndices)
      (ParentInv cbase CInv true (OwnAlways NoOwn)) := by
  refine streaming_ok hchild rfl rfl fun clock this output calm hdriven hle _ => ?_
  have hpulled := hdriven.pulled hchild clock {}
  simp only [ProjectStage.hooks, ProjectStage.onGetNext]
  generalize child.getNext clock this.members.child {} = call at hpulled ⊢
  obtain ⟨result, row, s', clock'⟩ := call
  cases result with
  | error e =>
    exact ⟨⟨rfl, rfl⟩, rfl, rfl, ⟨⟨.kOpen, rfl, hpulled.1⟩, hle, trivial⟩, hpulled.2.2⟩
  | ok state =>
    cases state with
    | kEof => exact ⟨⟨rfl, rfl⟩, rfl, rfl, ⟨.kEof, .inr rfl, hpulled.1⟩, hle, trivial⟩
    | kAdvanced =>
      simp only
      cases hrow : ProjectStage.project columnIndices row with
      | error e =>
        refine ⟨⟨rfl, rfl⟩, rfl, rfl, ⟨⟨.kOpen, rfl, hpulled.weaken hchild⟩,
          Nat.le_succ_of_le hle, trivial⟩, ?_⟩
        rw [ProjectStage.project_error hrow]
        decide
      | ok projected =>
        exact ⟨⟨rfl, rfl⟩, rfl, ⟨.kOpen, rfl, hpulled⟩, Nat.succ_le_succ hle, trivial⟩

/-! ### Limit -/

/-- A limit counts what it has emitted, and stops at its bound. -/
def CountsEmitted (limit : Nat) (rowsOut : Nat) (own : Emitted) : Prop :=
  own.emitted = rowsOut ∧ rowsOut ≤ limit

/-- A limit, which stops asking. -/
theorem LimitStage.hooksOk (hchild : Contract child cbase CInv) (limit : Nat) :
    HooksOk (LimitStage.hooks child limit)
      (ParentInv cbase CInv true (OwnAlways (CountsEmitted limit))) := by
  refine streaming_ok hchild rfl rfl fun clock this output calm hdriven hle hown => ?_
  simp only [LimitStage.hooks, LimitStage.onGetNext]
  by_cases hfull : limit ≤ this.members.own.emitted
  · rw [if_pos hfull]
    exact ⟨⟨rfl, rfl⟩, rfl, rfl, ⟨.kOpen, .inl rfl, hdriven⟩, hle, hown⟩
  · rw [if_neg hfull]
    have hpulled := hdriven.pulled hchild clock output
    generalize child.getNext clock this.members.child output = call at hpulled ⊢
    obtain ⟨result, row, s', clock'⟩ := call
    cases result with
    | error e =>
      exact ⟨⟨rfl, rfl⟩, rfl, hpulled.2.1, ⟨⟨.kOpen, rfl, hpulled.1⟩, hle, hown⟩, hpulled.2.2⟩
    | ok state =>
      cases state with
      | kEof => exact ⟨⟨rfl, rfl⟩, rfl, hpulled.2, ⟨.kEof, .inr rfl, hpulled.1⟩, hle, hown⟩
      | kAdvanced =>
        refine ⟨⟨rfl, rfl⟩, rfl, ⟨.kOpen, rfl, hpulled⟩, Nat.succ_le_succ hle, ?_, ?_⟩
        · rw [hown.1]
        · have hemitted := hown.1
          show this.stats.rowsOut + 1 ≤ limit
          omega

/-! ## Blocking stages

  The drain loop is the only place where they call their child.  By its end the child is at its
  own, or an exception is on its way and the stage will be closed. -/

/-- The row buffer of a blocking stage: `nextIndex` rows have been moved out of a buffer that holds
    no more than the stage has read; it is empty before opening and after closing.  `Fits` bounds
    the number of rows. -/
structure HoldsBuffer (Fits : Nat → Prop) (state : LifecycleState) (rowsIn rowsOut : Nat)
    (own : RowBuffer) : Prop where
  nextIndex : own.nextIndex = rowsOut
  fits : Fits rowsOut
  empty : state = .kUnopened ∨ state = .kClosed → own.buffer = []
  full : state ≠ .kClosed →
    own.nextIndex ≤ own.buffer.length ∧ own.buffer.length ≤ rowsIn ∧ Fits own.buffer.length

/-- How much a loop body adds to the buffer. -/
def FillsWithin (fill : List Row → Row → Except Exception (List Row)) (Fits : Nat → Prop) : Prop :=
  ∀ buffer row buffer', fill buffer row = .ok buffer' → Fits buffer.length →
    buffer'.length ≤ buffer.length + 1 ∧ Fits buffer'.length

/-- How a drain loop leaves the child it called and the members it counted and buffered in. -/
def DrainLeaves (cbase : σ → PlanStageBase) (CInv : Bool → σ → Prop) (calm : Bool)
    (Fits : Nat → Prop) (before : StageStats) (loop : LoopCall σ Drain) : Prop :=
  KeepsCalls before loop.locals.stats ∧ loop.locals.stats.rowsOut = 0 ∧
    match loop.result with
    | .ok _ => Driven cbase CInv calm .kEof loop.stage loop.locals.stats.rowsIn ∧
        loop.locals.buffer.length ≤ loop.locals.stats.rowsIn ∧ Fits loop.locals.buffer.length
    | .error e => (∃ state, Driven cbase CInv false state loop.stage loop.locals.stats.rowsIn) ∧
        e.NotLifecycle

/-- **The drain loop.**  Every row is counted in, and the buffer stays within both bounds. -/
theorem drain_leaves (hchild : Contract child cbase CInv) {body : Drain → Row → Flow Drain}
    {fill : List Row → Row → Except Exception (List Row)} {Fits : Nat → Prop}
    (hbody : FillsBy body fill)
    (hraise : ∀ buffer row e, fill buffer row = .error e → e.NotLifecycle)
    (hfill : FillsWithin fill Fits) {clock : Clock} {calm : Bool} {s : σ} {before : StageStats}
    {buffer : List Row} (hopened : Driven cbase CInv calm .kOpen s before.rowsIn)
    (hzero : before.rowsOut = 0) (hlen : buffer.length ≤ before.rowsIn)
    (hfit : Fits buffer.length) :
    DrainLeaves cbase CInv calm Fits before
      (whileAdvanced child body clock s { stats := before, buffer } {}) := by
  let I := fun (_ : Clock) (s : σ) (drain : Drain) =>
    Driven cbase CInv calm .kOpen s drain.stats.rowsIn ∧ KeepsCalls before drain.stats ∧
      drain.stats.rowsOut = 0 ∧ drain.buffer.length ≤ drain.stats.rowsIn ∧
      Fits drain.buffer.length
  refine whileAdvanced_rule _ _ (I := I) ?_ _ _ _ _ ⟨hopened, ⟨rfl, rfl⟩, hzero, hlen, hfit⟩
  rintro clock s ⟨stats, buffer⟩ row ⟨hdriven, hkeeps, hout, hlen, hfit⟩
  have hpulled := hdriven.pulled hchild clock row
  generalize child.getNext clock s row = call at hpulled ⊢
  obtain ⟨result, output, s', clock'⟩ := call
  cases result with
  | error e => exact ⟨hkeeps, hout, ⟨_, hpulled.1⟩, hpulled.2.2⟩
  | ok state =>
    cases state with
    | kEof => exact ⟨hkeeps, hout, hpulled.1, hlen, hfit⟩
    | kAdvanced =>
      have hround := hbody ⟨stats, buffer⟩ output
      simp only at hround
      simp only [RoundOk]
      cases hfilled : fill buffer output with
      | error e =>
        rw [hfilled] at hround
        rw [show body ⟨stats, buffer⟩ output = _ from hround]
        exact ⟨⟨hkeeps.1, hkeeps.2⟩, hout, ⟨_, hpulled.weaken hchild⟩, hraise _ _ _ hfilled⟩
      | ok buffer' =>
        rw [hfilled] at hround
        obtain ⟨left, hround⟩ := hround
        obtain ⟨hlen', hfit'⟩ := hfill _ _ _ hfilled hfit
        rw [hround]
        exact ⟨hpulled, ⟨hkeeps.1, hkeeps.2⟩, hout, Nat.le_trans hlen' (Nat.succ_le_succ hlen),
          hfit'⟩

/-- **Blocking stages.**  The child is at its end, or an exception has closed it, by the time
    `onOpen` ends. -/
theorem blocking_ok [StdLibrary] (hchild : Contract child cbase CInv) {name : String}
    {body : Drain → Row → Flow Drain} {fill : List Row → Row → Except Exception (List Row)}
    {Fits : Nat → Prop} (comparator : RowComparator) (hbody : FillsBy body fill)
    (hraise : ∀ buffer row e, fill buffer row = .error e → e.NotLifecycle)
    (hfill : FillsWithin fill Fits) (hdown : ∀ {m n}, m ≤ n → Fits n → Fits m) :
    HooksOk (BlockingStage.hooks name child body comparator)
      (ParentInv cbase CInv false (HoldsBuffer Fits)) where
  weaken := fun h => h.weaken hchild
  rowsOut_le := fun h => h.rowsOut_le
  onOpen clock this calm hJ hzero := by
    obtain ⟨hindex, hfits, hempty, -⟩ := hJ.own
    have hbuffer : this.members.own.buffer = [] := hempty (.inl rfl)
    rw [hzero] at hindex hfits
    -- once the members have been closed, only the counters matter
    have hclosed : ∀ {state : LifecycleState} {s : σ} (stats : StageStats) (buffer : List Row),
        Driven cbase CInv false state s stats.rowsIn →
        ParentInv cbase CInv false (HoldsBuffer Fits) false .kClosed stats.rowsIn 0
          (BlockingStage.onClose child (BlockingStage.leave this s ⟨stats, buffer⟩).members) :=
      fun _ _ hdriven => ⟨⟨.kClosed, rfl, hdriven.closed hchild⟩, Nat.zero_le _,
        hindex, hfits, fun _ => rfl, fun h => absurd rfl h⟩
    have hopened := hJ.unopened.opened hchild clock
    simp only [BlockingStage.hooks, BlockingStage.onOpen]
    generalize child.open clock this.members.child = opened at hopened ⊢
    obtain ⟨result, s, clock'⟩ := opened
    cases result with
    | error e =>
      exact ⟨⟨rfl, rfl⟩, hzero, hclosed this.stats [] hopened.1, hopened.2⟩
    | ok u =>
      have hloop : DrainLeaves cbase CInv calm Fits this.stats (whileAdvanced child body clock' s
          { stats := this.stats, buffer := this.members.own.buffer } {}) := by
        rw [hbuffer]
        exact drain_leaves hchild hbody hraise hfill hopened hzero (Nat.zero_le _) hfits
      simp only
      generalize whileAdvanced child body clock' s _ {} = loop at hloop ⊢
      obtain ⟨result, ⟨stats, buffer⟩, row, s', clock''⟩ := loop
      obtain ⟨hkeeps, hout, hresult⟩ := hloop
      simp only [BlockingStage.sortDrained]
      cases result with
      | error e =>
        obtain ⟨⟨state, hdriven⟩, hnot⟩ := hresult
        exact ⟨hkeeps, hout, hclosed _ _ hdriven, hnot⟩
      | ok state =>
        obtain ⟨hdriven, hlen, hfit⟩ := hresult
        simp only at hlen hfit
        simp only
        cases hsort : stdSort comparator.call buffer with
        | error e =>
          obtain ⟨a, -, b, -, hcmp⟩ := rearrange_error hsort
          exact ⟨hkeeps, hout, hclosed _ _ (hdriven.weaken hchild), RowComparator.call_notLifecycle hcmp⟩
        | ok sorted =>
          have hlength : sorted.length = buffer.length := rearrange_length sort_length hsort
          refine ⟨⟨hkeeps.1, hkeeps.2⟩, hout, ⟨.kEof, rfl, hdriven⟩, Nat.zero_le _, hindex, hfits,
            fun h => absurd h (by decide), fun _ => ⟨?_, ?_, ?_⟩⟩
          · simp only [BlockingStage.leave, hindex]; exact Nat.zero_le _
          · simp only [BlockingStage.leave, hlength]; exact hlen
          · simp only [BlockingStage.leave, hlength]; exact hfit
  onGetNext clock this output calm hJ := by
    obtain ⟨⟨childState, hstate, hdriven⟩, hle, hindex, hfits, -, hfull⟩ := hJ
    obtain ⟨hnext, hlen, hfit⟩ := hfull (by decide)
    have heof : childState = .kEof := hstate
    simp only [BlockingStage.hooks, BlockingStage.onGetNext]
    cases hrow : this.members.own.buffer[this.members.own.nextIndex]? with
    | none =>
      exact ⟨⟨rfl, rfl⟩, rfl, rfl, ⟨childState, .inr heof, hdriven⟩, hle, hindex, hfits,
        fun h => absurd h (by decide), fun _ => ⟨hnext, hlen, hfit⟩⟩
    | some row =>
      have hlt := (List.getElem?_eq_some_iff.mp hrow).1
      refine ⟨⟨rfl, rfl⟩, rfl, ⟨childState, hstate, hdriven⟩, by simp only; omega,
        by simp only [hindex], hdown (by simp only; omega) hfit,
        fun h => absurd h (by decide), fun _ => ?_⟩
      simp only [List.length_set]
      exact ⟨hlt, hlen, hfit⟩
  onClose := by
    intro calm state rowsIn rowsOut members hJ _
    exact hJ.close hchild ⟨hJ.own.nextIndex, hJ.own.fits, fun _ => rfl, fun h => absurd rfl h⟩

/-- A sort. -/
theorem SortStage.hooksOk [StdLibrary] (hchild : Contract child cbase CInv)
    (comparator : RowComparator) :
    HooksOk (SortStage.hooks child comparator)
      (ParentInv cbase CInv false (HoldsBuffer fun _ => True)) := by
  refine blocking_ok hchild comparator SortStage.body_fillsBy (fun _ _ _ h => by cases h) ?_
    (fun _ _ => trivial)
  intro buffer row buffer' h _
  rw [← Except.ok.inj h, List.length_append, List.length_singleton]
  exact ⟨Nat.le_refl _, trivial⟩

/-- A top-k. -/
theorem TopKStage.hooksOk [StdLibrary] (hchild : Contract child cbase CInv)
    (comparator : RowComparator) (k : Nat) :
    HooksOk (TopKStage.hooks child comparator k)
      (ParentInv cbase CInv false (HoldsBuffer (· ≤ k))) := by
  refine blocking_ok hchild comparator (TopKStage.body_fillsBy comparator k) ?_
    (fun _ _ _ h hroom => BoundedHeap.offer_length h hroom) (fun hmn hn => Nat.le_trans hmn hn)
  intro buffer row e h
  obtain ⟨a, -, b, -, hcmp⟩ := BoundedHeap.offer_error h
  exact RowComparator.call_notLifecycle hcmp

end Parents

/-! ## The leaf -/

/-- A scan has given out exactly the rows before its index. -/
def ScanInv (table : Table) : MemberInv CollectionScanStage :=
  fun _ state rowsIn rowsOut members =>
    rowsIn = rowsOut ∧ members.nextIndex = rowsOut ∧ rowsOut ≤ table.rows.length ∧
      (state = .kUnopened → rowsOut = 0)

/-- The leaf, which has no child. -/
theorem CollectionScanStage.hooksOk (table : Table) :
    HooksOk (CollectionScanStage.hooks table) (ScanInv table) where
  weaken := fun h => h
  rowsOut_le := fun h => Nat.le_of_eq h.1.symm
  onOpen clock this calm hJ hzero := by
    obtain ⟨hrows, -, -, -⟩ := hJ
    exact ⟨⟨rfl, rfl⟩, hzero, hrows.trans hzero, rfl, Nat.zero_le _, fun _ => rfl⟩
  onGetNext clock this output calm hJ := by
    obtain ⟨hrows, hindex, hle, -⟩ := hJ
    simp only [CollectionScanStage.hooks, CollectionScanStage.onGetNext]
    cases hrow : table.rows[this.members.nextIndex]? with
    | none => exact ⟨⟨rfl, rfl⟩, rfl, rfl, hrows, hindex, hle, fun h => (by cases h)⟩
    | some row =>
      have hlt := (List.getElem?_eq_some_iff.mp hrow).1
      exact ⟨⟨rfl, rfl⟩, rfl, by simp only [hrows], by simp only [hindex], by simp only; omega,
        fun h => (by cases h)⟩
  onClose := by
    rintro calm state rowsIn rowsOut members ⟨hrows, hindex, hle, -⟩ _
    exact ⟨hrows, hindex, hle, fun h => (by cases h)⟩

end QueryLume
