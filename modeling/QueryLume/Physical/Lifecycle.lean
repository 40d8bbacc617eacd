/-
  The lifecycle protocol of a whole chain of stages.

  The states of the stages are not independent: a blocking stage drives its child to the end while
  it is being opened, a limit stops early, an exception can leave a call at any depth, and closing
  recurses. The invariant is proved stage by stage, in assume–guarantee form:

  * `Contract` — what a parent may rely on when it drives a child: admitted calls keep the child's
    invariant, never fail a lifecycle check, and move its state and counters as listed.
  * `HooksOk` — what a stage class has to show about its hooks, given the contract of its child.
  * `HooksOk.contract` — the shared wrapper turns the second into the first, so a new stage class
    needs `HooksOk` and nothing else.

  `calm` is the part of the invariant that only holds while no call has thrown: exceptions are
  counted as calls but deliver no row, so the equations between the counters of parent and child
  become inequalities after one.
-/
import QueryLume.Physical.Planner

namespace QueryLume

open StdAlgorithms

/-! ## Contracts -/

/-- A stage that is only driven by a parent is never called again after its EOF. -/
def Balanced (base : PlanStageBase) : Prop :=
  match base.state with
  | .kUnopened | .kOpen => base.stats.getNextCalls = base.stats.rowsOut
  | .kEof => base.stats.getNextCalls = base.stats.rowsOut + 1
  | .kClosed => base.stats.getNextCalls = base.stats.rowsOut ∨
      base.stats.getNextCalls = base.stats.rowsOut + 1

section Contract

variable {σ : Type}

/-- What an admitted `open()` leaves behind. -/
def AfterOpen (base : σ → PlanStageBase) (Inv : Bool → σ → Prop) (calm : Bool) (s : σ)
    (call : OpenCall σ) : Prop :=
  (base call.stage).stats.rowsOut = (base s).stats.rowsOut ∧
  match call.result with
  | .ok () => Inv calm call.stage ∧ (base call.stage).state = .kOpen ∧
      (base call.stage).stats.getNextCalls = (base s).stats.getNextCalls
  | .error e => Inv false call.stage ∧ (base call.stage).state = .kClosed ∧ e.NotLifecycle

/-- What an admitted `getNext()` leaves behind. -/
def AfterGetNext (base : σ → PlanStageBase) (Inv : Bool → σ → Prop) (calm : Bool) (s : σ)
    (row : Row) (call : NextCall σ) : Prop :=
  (base call.stage).stats.getNextCalls = (base s).stats.getNextCalls + 1 ∧
  match call.result with
  | .ok .kAdvanced => Inv calm call.stage ∧ (base call.stage).state = .kOpen ∧
      (base call.stage).stats.rowsOut = (base s).stats.rowsOut + 1
  | .ok .kEof => Inv calm call.stage ∧ (base call.stage).state = .kEof ∧
      (base call.stage).stats.rowsOut = (base s).stats.rowsOut ∧ call.output = row
  | .error e => Inv false call.stage ∧ (base call.stage).state = .kOpen ∧
      (base call.stage).stats.rowsOut = (base s).stats.rowsOut ∧ call.output = row ∧ e.NotLifecycle

/-- What `close()` leaves behind. -/
structure AfterClose (base : σ → PlanStageBase) (Inv : Bool → σ → Prop) (calm : Bool) (s s' : σ) :
    Prop where
  inv : Inv calm s'
  state : (base s').state = .kClosed
  rowsOut : (base s').stats.rowsOut = (base s).stats.rowsOut
  getNextCalls : (base s').stats.getNextCalls = (base s).stats.getNextCalls

/-- What a parent may rely on when it drives a child. -/
structure Contract (iterator : PlanStage σ) (base : σ → PlanStageBase) (Inv : Bool → σ → Prop) :
    Prop where
  weaken : ∀ {calm s}, Inv calm s → Inv false s
  opened : ∀ clock {s calm}, Inv calm s → (base s).state = .kUnopened →
    AfterOpen base Inv calm s (iterator.open clock s)
  next : ∀ clock {s calm} row, Inv calm s → (base s).state = .kOpen →
    AfterGetNext base Inv calm s row (iterator.getNext clock s row)
  closed : ∀ {s calm}, Inv calm s → AfterClose base Inv calm s (iterator.close s)
  /-- A call the lifecycle check rejects changes nothing at all. -/
  openRejected : ∀ clock {s}, (base s).state ≠ .kUnopened →
    ∃ e, e.code = some .kInvalidStageLifecycle ∧
      iterator.open clock s = { result := .error e, stage := s, clock }
  nextRejected : ∀ clock {s} row, (base s).state = .kUnopened ∨ (base s).state = .kClosed →
    ∃ e, e.code = some .kInvalidStageLifecycle ∧
      iterator.getNext clock s row = { result := .error e, output := row, stage := s, clock }
  /-- EOF is final: the call is counted and answered on the spot. -/
  nextAtEof : ∀ clock {s calm} row, Inv calm s → (base s).state = .kEof →
    ∃ s', iterator.getNext clock s row = { result := .ok .kEof, output := row, stage := s', clock } ∧
      Inv calm s' ∧ (base s').state = .kEof ∧ (base s').stats.rowsOut = (base s).stats.rowsOut
  closedAgain : ∀ {s}, (base s).state = .kClosed → iterator.close s = s

end Contract

/-! ## From hooks to contracts -/

/-- The invariant of the shared members. -/
structure BaseOk (base : PlanStageBase) : Prop where
  fresh : base.state = .kUnopened → base.stats = {}
  openCalls : base.stats.openCalls ≤ 1
  rowsOut_le : base.stats.rowsOut ≤ base.stats.rowsIn
  onCloseRuns : base.onCloseRuns = if base.state = .kClosed then 1 else 0

section Hooks

variable {F : Type}

/-- A stage invariant in terms of what hooks change: the row counters and the members. -/
abbrev MemberInv (F : Type) := Bool → LifecycleState → Nat → Nat → F → Prop

/-- A stage object: its shared members are in order, and so are its own. -/
def StageInv (J : MemberInv F) (calm : Bool) (this : StageObject F) : Prop :=
  BaseOk this.base ∧
    J calm this.base.state this.base.stats.rowsIn this.base.stats.rowsOut this.members

/-- Hooks leave alone the counters the wrapper keeps. -/
structure KeepsCalls (before after : StageStats) : Prop where
  openCalls : after.openCalls = before.openCalls
  getNextCalls : after.getNextCalls = before.getNextCalls

/-- What the hooks of a stage class have to guarantee. -/
structure HooksOk (hooks : StageHooks F) (J : MemberInv F) : Prop where
  weaken : ∀ {calm state rowsIn rowsOut members}, J calm state rowsIn rowsOut members →
    J false state rowsIn rowsOut members
  rowsOut_le : ∀ {calm state rowsIn rowsOut members}, J calm state rowsIn rowsOut members →
    rowsOut ≤ rowsIn
  onOpen : ∀ clock (this : Protected F) calm,
    J calm .kUnopened this.stats.rowsIn this.stats.rowsOut this.members →
    this.stats.rowsOut = 0 →
    let call := hooks.onOpen clock this
    KeepsCalls this.stats call.stage.stats ∧ call.stage.stats.rowsOut = 0 ∧
    match call.result with
    | .ok () => J calm .kOpen call.stage.stats.rowsIn 0 call.stage.members
    | .error e =>
      J false .kClosed call.stage.stats.rowsIn 0 (hooks.onClose call.stage.members) ∧ e.NotLifecycle
  onGetNext : ∀ clock (this : Protected F) output calm,
    J calm .kOpen this.stats.rowsIn this.stats.rowsOut this.members →
    let call := hooks.onGetNext clock this output
    KeepsCalls this.stats call.stage.stats ∧
    match call.result with
    | .ok .kAdvanced => call.stage.stats.rowsOut = this.stats.rowsOut + 1 ∧
        J calm .kOpen call.stage.stats.rowsIn call.stage.stats.rowsOut call.stage.members
    | .ok .kEof => call.stage.stats.rowsOut = this.stats.rowsOut ∧ call.output = output ∧
        J calm .kEof call.stage.stats.rowsIn call.stage.stats.rowsOut call.stage.members
    | .error e => call.stage.stats.rowsOut = this.stats.rowsOut ∧ call.output = output ∧
        J false .kOpen call.stage.stats.rowsIn call.stage.stats.rowsOut call.stage.members ∧
        e.NotLifecycle
  onClose : ∀ {calm state rowsIn rowsOut members}, J calm state rowsIn rowsOut members →
    state ≠ .kClosed → J calm .kClosed rowsIn rowsOut (hooks.onClose members)

variable {hooks : StageHooks F} {J : MemberInv F}

/-- The wrapper around `onOpen`. -/
theorem HooksOk.afterOpen (hhooks : HooksOk hooks J) (clock : Clock) {this : StageObject F}
    {calm : Bool} (hInv : StageInv J calm this) (hstate : this.base.state = .kUnopened) :
    AfterOpen StageObject.base (StageInv J) calm this (hooks.planStage.open clock this) := by
  obtain ⟨hbase, hJ⟩ := hInv
  have hfresh := hbase.fresh hstate
  have hzero : this.base.stats.rowsOut = 0 := by rw [hfresh]
  have hcalls : this.base.stats.openCalls = 0 := by rw [hfresh]
  have hcall := hhooks.onOpen clock.tick
    { stats := { this.base.stats with openCalls := this.base.stats.openCalls + 1 }
      members := this.members } calm (hstate ▸ hJ) hzero
  obtain ⟨micros, hok, herr⟩ := PlanStageBase.open_admitted hooks clock hstate
  unfold PlanStageBase.openHook at hok herr
  simp only at hok herr hcall
  generalize hooks.onOpen clock.tick
    { stats := { this.base.stats with openCalls := this.base.stats.openCalls + 1 }
      members := this.members } = call at hok herr hcall
  obtain ⟨result, ⟨stats, members⟩, clock'⟩ := call
  obtain ⟨⟨hopenCalls, hgetNextCalls⟩, hrowsOut, hresult⟩ := hcall
  simp only at hopenCalls hgetNextCalls hrowsOut hresult
  cases result with
  | ok u =>
    simp only [StageHooks.planStage, hok u rfl]
    refine ⟨hrowsOut.trans hzero.symm, ⟨⟨fun h => (by cases h), ?_, ?_, ?_⟩, ?_⟩, rfl, hgetNextCalls⟩
    · simp only [hopenCalls, hcalls]; omega
    · simp only [hrowsOut]; omega
    · simp [hbase.onCloseRuns, hstate]
    · simp only [hrowsOut]; exact hresult
  | error e =>
    simp only [StageHooks.planStage, herr e rfl]
    refine ⟨hrowsOut.trans hzero.symm, ⟨⟨fun h => (by cases h), ?_, ?_, ?_⟩, ?_⟩, rfl, hresult.2⟩
    · simp only [hopenCalls, hcalls]; omega
    · simp only [hrowsOut]; omega
    · simp [hbase.onCloseRuns, hstate]
    · simp only [hrowsOut]; exact hresult.1

/-- The wrapper around `onGetNext`. -/
theorem HooksOk.afterGetNext (hhooks : HooksOk hooks J) (clock : Clock) {this : StageObject F}
    {calm : Bool} (row : Row) (hInv : StageInv J calm this) (hstate : this.base.state = .kOpen) :
    AfterGetNext StageObject.base (StageInv J) calm this row
      (hooks.planStage.getNext clock this row) := by
  obtain ⟨hbase, hJ⟩ := hInv
  have hcall := hhooks.onGetNext clock.tick
    { stats := { this.base.stats with getNextCalls := this.base.stats.getNextCalls + 1 }
      members := this.members } row calm (hstate ▸ hJ)
  obtain ⟨micros, herr, hok⟩ := PlanStageBase.getNext_admitted hooks clock row hstate
  unfold PlanStageBase.getNextHook at herr hok
  simp only at herr hok hcall
  generalize hooks.onGetNext clock.tick
    { stats := { this.base.stats with getNextCalls := this.base.stats.getNextCalls + 1 }
      members := this.members } row = call at herr hok hcall
  obtain ⟨result, output, ⟨stats, members⟩, clock'⟩ := call
  obtain ⟨⟨hopenCalls, hgetNextCalls⟩, hresult⟩ := hcall
  simp only at hopenCalls hgetNextCalls hresult
  -- the shared members after the call, in whatever admitted state it ends
  have hbase' : ∀ (state : LifecycleState) (micros : Nat), state ≠ .kUnopened → state ≠ .kClosed →
      stats.rowsOut ≤ stats.rowsIn →
      BaseOk { this.base with
        state := state
        stats := { stats with executionTimeMicros := micros } } := by
    intro state micros hunopened hclosed hle
    refine ⟨fun h => absurd h hunopened, ?_, hle, ?_⟩
    · simp only [hopenCalls]; exact hbase.openCalls
    · simp [hbase.onCloseRuns, hstate, hclosed]
  cases result with
  | error e =>
    obtain ⟨hrowsOut, rfl, hJ', hnot⟩ := hresult
    simp only [StageHooks.planStage, herr e rfl]
    refine ⟨hgetNextCalls, ⟨?_, ?_⟩, hstate, hrowsOut, rfl, hnot⟩
    · have h := hbase' .kOpen stats.executionTimeMicros (by decide) (by decide)
        (hhooks.rowsOut_le hJ')
      rwa [← hstate] at h
    · simp only [hstate]; exact hJ'
  | ok state =>
    cases state with
    | kEof =>
      obtain ⟨hrowsOut, rfl, hJ'⟩ := hresult
      simp only [StageHooks.planStage, hok _ rfl]
      exact ⟨hgetNextCalls, ⟨hbase' .kEof _ (by decide) (by decide) (hhooks.rowsOut_le hJ'), hJ'⟩,
        rfl, hrowsOut, rfl⟩
    | kAdvanced =>
      obtain ⟨hrowsOut, hJ'⟩ := hresult
      simp only [StageHooks.planStage, hok _ rfl]
      exact ⟨hgetNextCalls, ⟨hbase' .kOpen _ (by decide) (by decide) (hhooks.rowsOut_le hJ'), hJ'⟩,
        rfl, hrowsOut⟩

/-- The wrapper around `onClose`. -/
theorem HooksOk.afterClose (hhooks : HooksOk hooks J) {this : StageObject F} {calm : Bool}
    (hInv : StageInv J calm this) :
    AfterClose StageObject.base (StageInv J) calm this (hooks.planStage.close this) := by
  obtain ⟨hbase, hJ⟩ := hInv
  simp only [StageHooks.planStage, PlanStageBase.close]
  by_cases hclosed : this.base.state = .kClosed
  · rw [if_pos hclosed]
    exact ⟨⟨hbase, hJ⟩, hclosed, rfl, rfl⟩
  · rw [if_neg hclosed]
    refine ⟨⟨⟨fun h => (by cases h), hbase.openCalls, hbase.rowsOut_le, ?_⟩,
      hhooks.onClose hJ hclosed⟩, rfl, rfl, rfl⟩
    simp [hbase.onCloseRuns, hclosed]

/-- **The wrapper.**  Hooks that keep their obligations make a stage that keeps its contract. -/
theorem HooksOk.contract (hhooks : HooksOk hooks J) :
    Contract hooks.planStage StageObject.base (StageInv J) where
  weaken := fun h => ⟨h.1, hhooks.weaken h.2⟩
  opened clock _ _ hInv hstate := hhooks.afterOpen clock hInv hstate
  next clock _ _ row hInv hstate := hhooks.afterGetNext clock row hInv hstate
  closed := fun hInv => hhooks.afterClose hInv
  openRejected _ _ hstate := ⟨_, rfl, PlanStageBase.open_rejected hstate⟩
  nextRejected _ _ _ hstate := ⟨_, rfl, PlanStageBase.getNext_rejected hstate⟩
  nextAtEof _ this _ _ hInv hstate := by
    obtain ⟨⟨hfresh, hopenCalls, hle, hclose⟩, hJ⟩ := hInv
    refine ⟨_, PlanStageBase.getNext_eof hstate, ⟨⟨fun h => ?_, hopenCalls, hle, hclose⟩, hJ⟩, hstate,
      rfl⟩
    rw [hstate] at h
    cases h
  closedAgain := fun hstate => by
    simp only [StageHooks.planStage, PlanStageBase.close]
    rw [if_pos hstate]

end Hooks

end QueryLume
