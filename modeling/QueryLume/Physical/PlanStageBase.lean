/-
  The shared half of every stage: lifecycle checks, counters and timing (`plan_stage_base.cpp`).

  A concrete stage supplies hooks (`StageHooks`); they reach its own members and the protected
  counters, never the private lifecycle state.  `PlanStageBase.open`, `getNext` and `close` wrap
  them:

  * `open` is allowed once, on a stage nobody has opened; if the hook throws, the stage is closed
    again (`onClose` runs) and the exception goes on;
  * `getNext` is allowed on an open stage; after an end of file it answers the same again without
    asking the hook; a hook that throws leaves the stage open, and the time of that call is not
    counted;
  * `close` may be called at any time and any number of times, and runs the hook once.

  `StageHooks.planStage` is the resulting pull iterator.  The inversion lemmas at the end say what
  a call of the wrapper does in terms of its hook, one lemma per way it can go (rejected, admitted,
  after the end); every later proof about the wrapper goes through them and never unfolds it.
-/
import QueryLume.Physical.PlanStage

namespace QueryLume

/-- The private states of a stage: not opened yet, open, closed, and open with nothing left to
    give out.  There is no state for a stage that has thrown; it stays open until somebody closes
    it. -/
inductive LifecycleState where
  | kUnopened
  | kOpen
  | kClosed
  | kEof
deriving DecidableEq, Repr

/-- The members every stage object has: its state and its counters. -/
structure PlanStageBase where
  state : LifecycleState := .kUnopened
  stats : StageStats := {}
  /-- Ghost: how often `onClose()` has run.  Nothing reads it. -/
  onCloseRuns : Nat := 0
deriving DecidableEq

/-- A stage object: the shared members and the subclass's own.  For a stage with a child the
    object of the child is among the latter. -/
structure StageObject (F : Type) where
  base : PlanStageBase := {}
  members : F

/-- What the hooks of a subclass can reach: the counters, which are protected, and the members of
    the subclass.  The lifecycle state is private to the base class, so no hook can change it. -/
structure Protected (F : Type) where
  stats : StageStats
  members : F

/-- The virtual hooks a subclass implements, and the name it has in messages.  `bound` is a
    measure for the loops over the stage: every call that advances makes it smaller. -/
structure StageHooks (F : Type) where
  stageName : String
  onOpen : Clock → Protected F → OpenCall (Protected F)
  onGetNext : Clock → Protected F → Row → NextCall (Protected F)
  onClose : F → F
  bound : F → Nat
  bound_onGetNext : ∀ clock this output, (onGetNext clock this output).result = .ok .kAdvanced →
    bound (onGetNext clock this output).stage.members < bound this.members

namespace PlanStageBase

variable {F : Type}

/-- The error of a second `open`. -/
def openedTwice (stageName : String) : Exception :=
  .queryLumeError .kInvalidStageLifecycle
    (stageName ++ ": open() called more than once (reopen after close is unsupported)")

/-- The error of `getNext` on a stage that is not open. -/
def notOpen (stageName : String) : Exception :=
  .queryLumeError .kInvalidStageLifecycle
    (stageName ++ ": getNext() called before open() or after close()")

/-- `PlanStageBase::open`.  A stage that has been opened before is rejected without a change.  An
    admitted call is counted and timed whether its hook returns or throws; a throw closes the
    stage, by `onClose`, before it goes on. -/
def «open» (hooks : StageHooks F) (clock : Clock) (this : StageObject F) :
    OpenCall (StageObject F) :=
  if this.base.state ≠ .kUnopened then
    { result := .error (openedTwice hooks.stageName), stage := this, clock }
  else
    let counted := { this.base.stats with openCalls := this.base.stats.openCalls + 1 }
    let call := hooks.onOpen clock.tick { stats := counted, members := this.members }
    let stats := { call.stage.stats with
      executionTimeMicros := call.stage.stats.executionTimeMicros +
        call.clock.microsSince clock.now }
    match call.result with
    | .ok () =>
      { result := .ok ()
        stage := { base := { this.base with state := .kOpen, stats }, members := call.stage.members }
        clock := call.clock.tick }
    | .error e =>
      -- the catch block: roll the partly opened tree back, then rethrow
      { result := .error e
        stage :=
          { base := { state := .kClosed, stats, onCloseRuns := this.base.onCloseRuns + 1 }
            members := hooks.onClose call.stage.members }
        clock := call.clock.tick }

/-- `PlanStageBase::getNext`.  A stage that is not open is rejected without a change, and after
    the end the call is counted and answered at once.  Otherwise the hook is asked; if it throws,
    what it has done to the counters and the members stays, and the call is not timed. -/
def getNext (hooks : StageHooks F) (clock : Clock) (this : StageObject F) (output : Row) :
    NextCall (StageObject F) :=
  if this.base.state = .kUnopened ∨ this.base.state = .kClosed then
    { result := .error (notOpen hooks.stageName), output, stage := this, clock }
  else
    let counted := { this.base.stats with getNextCalls := this.base.stats.getNextCalls + 1 }
    if this.base.state = .kEof then
      { result := .ok .kEof, output, stage := { this with base := { this.base with stats := counted } }
        clock }
    else
      let call := hooks.onGetNext clock.tick { stats := counted, members := this.members } output
      match call.result with
      | .error e =>
        -- no catch block here: the timing and the state update are skipped
        { result := .error e, output := call.output
          stage := { base := { this.base with stats := call.stage.stats }
                     members := call.stage.members }
          clock := call.clock }
      | .ok result =>
        let stats := { call.stage.stats with
          executionTimeMicros := call.stage.stats.executionTimeMicros +
            call.clock.microsSince clock.now }
        { result := .ok result, output := call.output
          stage :=
            { base := { this.base with
                stats, state := if result = .kEof then .kEof else this.base.state }
              members := call.stage.members }
          clock := call.clock.tick }

/-- `PlanStageBase::close`, which throws nothing.  It runs `onClose` unless the stage is closed,
    also on a stage that has never been opened. -/
def close (hooks : StageHooks F) (this : StageObject F) : StageObject F :=
  if this.base.state = .kClosed then this
  else
    { base := { this.base with state := .kClosed, onCloseRuns := this.base.onCloseRuns + 1 }
      members := hooks.onClose this.members }

/-! ## Inversion: what a call of the wrapper does, in terms of its hook -/

section Inversion

variable {hooks : StageHooks F} {clock : Clock} {this : StageObject F} {output : Row}

/-- The hook call behind an admitted `open()`. -/
def openHook (hooks : StageHooks F) (clock : Clock) (this : StageObject F) :
    OpenCall (Protected F) :=
  hooks.onOpen clock.tick
    { stats := { this.base.stats with openCalls := this.base.stats.openCalls + 1 }
      members := this.members }

/-- The hook call behind an admitted `getNext()`. -/
def getNextHook (hooks : StageHooks F) (clock : Clock) (this : StageObject F) (output : Row) :
    NextCall (Protected F) :=
  hooks.onGetNext clock.tick
    { stats := { this.base.stats with getNextCalls := this.base.stats.getNextCalls + 1 }
      members := this.members } output

/-- A stage that was opened before stays as it is. -/
theorem open_rejected (h : this.base.state ≠ .kUnopened) :
    «open» hooks clock this =
      { result := .error (openedTwice hooks.stageName), stage := this, clock } := by
  rw [«open», if_pos h]

theorem open_admitted (hooks : StageHooks F) (clock : Clock) (h : this.base.state = .kUnopened) :
    let call := openHook hooks clock this
    ∃ micros, (∀ u, call.result = .ok u → «open» hooks clock this =
        { result := .ok ()
          stage :=
            { base := { this.base with
                state := .kOpen
                stats := { call.stage.stats with
                  executionTimeMicros := call.stage.stats.executionTimeMicros + micros } }
              members := call.stage.members }
          clock := call.clock.tick }) ∧
      ∀ e, call.result = .error e → «open» hooks clock this =
        { result := .error e
          stage :=
            { base :=
                { state := .kClosed
                  stats := { call.stage.stats with
                    executionTimeMicros := call.stage.stats.executionTimeMicros + micros }
                  onCloseRuns := this.base.onCloseRuns + 1 }
              members := hooks.onClose call.stage.members }
          clock := call.clock.tick } := by
  refine ⟨(openHook hooks clock this).clock.microsSince clock.now, fun u hok => ?_, fun e herr => ?_⟩
  · have hok' : (openHook hooks clock this).result = .ok () := hok
    rw [«open», if_neg (not_not.mpr h)]
    unfold openHook at hok' ⊢
    simp only [hok']
  · rw [«open», if_neg (not_not.mpr h)]
    unfold openHook at herr ⊢
    simp only [herr]

/-- A stage that is not open stays as it is. -/
theorem getNext_rejected (h : this.base.state = .kUnopened ∨ this.base.state = .kClosed) :
    getNext hooks clock this output =
      { result := .error (notOpen hooks.stageName), output, stage := this, clock } := by
  rw [getNext, if_pos h]

/-- After the end the answer is the same, and the hook is not asked. -/
theorem getNext_eof (h : this.base.state = .kEof) :
    getNext hooks clock this output =
      { result := .ok .kEof, output
        stage := { this with base := { this.base with
          stats := { this.base.stats with getNextCalls := this.base.stats.getNextCalls + 1 } } }
        clock } := by
  rw [getNext, if_neg (by simp [h])]
  simp only [h, if_true]

theorem getNext_admitted (hooks : StageHooks F) (clock : Clock) (output : Row)
    (h : this.base.state = .kOpen) :
    let call := getNextHook hooks clock this output
    ∃ micros, (∀ e, call.result = .error e → getNext hooks clock this output =
        { result := .error e, output := call.output
          stage := { base := { this.base with stats := call.stage.stats }
                     members := call.stage.members }
          clock := call.clock }) ∧
      ∀ result, call.result = .ok result → getNext hooks clock this output =
        { result := .ok result, output := call.output
          stage :=
            { base := { this.base with
                state := if result = .kEof then .kEof else .kOpen
                stats := { call.stage.stats with
                  executionTimeMicros := call.stage.stats.executionTimeMicros + micros } }
              members := call.stage.members }
          clock := call.clock.tick } := by
  have hadmit : ¬ (this.base.state = .kUnopened ∨ this.base.state = .kClosed) := by simp [h]
  have hnot : this.base.state ≠ .kEof := by simp [h]
  refine ⟨(getNextHook hooks clock this output).clock.microsSince clock.now, fun e herr => ?_,
    fun result hok => ?_⟩
  · rw [getNext, if_neg hadmit, if_neg hnot]
    unfold getNextHook at herr ⊢
    simp only [herr]
  · rw [getNext, if_neg hadmit, if_neg hnot]
    unfold getNextHook at hok ⊢
    simp only [hok, h]

/-- An advancing wrapper call is an advancing hook call. -/
theorem getNext_advanced (h : (getNext hooks clock this output).result = .ok .kAdvanced) :
    (getNextHook hooks clock this output).result = .ok .kAdvanced ∧
      (getNext hooks clock this output).stage.members =
        (getNextHook hooks clock this output).stage.members := by
  cases hstate : this.base.state with
  | kUnopened => rw [getNext_rejected (.inl hstate)] at h; cases h
  | kClosed => rw [getNext_rejected (.inr hstate)] at h; cases h
  | kEof => rw [getNext_eof hstate] at h; cases h
  | kOpen =>
    obtain ⟨micros, herr, hok⟩ := getNext_admitted hooks clock output hstate
    cases hresult : (getNextHook hooks clock this output).result with
    | error e => rw [herr e hresult] at h; cases h
    | ok result =>
      rw [hok result hresult] at h ⊢
      exact ⟨h, rfl⟩

end Inversion

end PlanStageBase

/-- The pull iterator of a stage class. -/
def StageHooks.planStage {F : Type} (hooks : StageHooks F) : PlanStage (StageObject F) where
  «open» := PlanStageBase.open hooks
  getNext := PlanStageBase.getNext hooks
  close := PlanStageBase.close hooks
  bound this := hooks.bound this.members
  bound_getNext clock this output h := by
    obtain ⟨hhook, hmembers⟩ := PlanStageBase.getNext_advanced h
    rw [hmembers]
    exact hooks.bound_onGetNext _ _ _ hhook

end QueryLume
