/-
  Inclusive timing.

  Every stage adds to its counter the time each of its calls takes, rounded down to microseconds;
  the calls it makes on its child fall into that time.  However many they are, they are disjoint,
  so what the child adds during one call of its parent is at most what the parent adds (`Pace`):
  rounding down many intervals loses more than rounding down the one around them.

  That is kept by every call that returns.  A call that throws may leave the child ahead: a
  `getNext()` that throws is not timed.
-/
import QueryLume.Explain.QueryFacade
import QueryLume.Foundation.Checked
import QueryLume.Physical.DrainLoop
import QueryLume.Physical.Guarantees

namespace QueryLume

open StdAlgorithms

/-! ## Pace

  A counter that keeps pace with a clock can be ahead of nothing that the clock has measured.  Pace
  composes along the calls of a stage, which is how a loop of many calls keeps it. -/

theorem Clock.now_le_tick (clock : Clock) : clock.now ≤ clock.tick.now :=
  clock.steady (Nat.zero_le 1)

section Pace

variable {σ : Type} {time : σ → Nat}

/-- Between two readings of the clock, the counter `time` has not grown by more than the clock.
    The counter is in microseconds and the clock in nanoseconds, hence the factor. -/
structure Pace (time : σ → Nat) (clock : Clock) (s : σ) (clock' : Clock) (s' : σ) : Prop where
  forward : clock.now ≤ clock'.now
  covered : 1000 * time s' + clock.now ≤ 1000 * time s + clock'.now

theorem Pace.refl (clock : Clock) (s : σ) : Pace time clock s clock s :=
  ⟨Nat.le_refl _, Nat.le_refl _⟩

theorem Pace.trans {clock clock' clock'' : Clock} {s s' s'' : σ} (h : Pace time clock s clock' s')
    (h' : Pace time clock' s' clock'' s'') : Pace time clock s clock'' s'' := by
  obtain ⟨hforward, hcovered⟩ := h
  obtain ⟨hforward', hcovered'⟩ := h'
  constructor
  · omega
  · omega

/-- A counter that stands still keeps any pace. -/
theorem Pace.of_eq {clock clock' : Clock} {s s' : σ} (hforward : clock.now ≤ clock'.now)
    (heq : time s' = time s) : Pace time clock s clock' s' :=
  ⟨hforward, by rw [heq]; omega⟩

/-! ## The contract

  What a parent may assume of its child, and owes to its own parent: every call keeps pace, also
  one that throws, and calls that return keep the invariant of the child. -/

/-- What a stage guarantees about its counter `time`: it keeps pace in every call, closing leaves it
    alone, and calls that return keep the invariant. -/
structure Timed (iterator : PlanStage σ) (time : σ → Nat) (Inv : σ → Prop) : Prop where
  openPace : ∀ clock s,
    Pace time clock s (iterator.open clock s).clock (iterator.open clock s).stage
  nextPace : ∀ clock s row,
    Pace time clock s (iterator.getNext clock s row).clock (iterator.getNext clock s row).stage
  closeTime : ∀ s, time (iterator.close s) = time s
  openInv : ∀ clock s, Inv s → (iterator.open clock s).result = .ok () →
    Inv (iterator.open clock s).stage
  nextInv : ∀ clock s row state, Inv s → (iterator.getNext clock s row).result = .ok state →
    Inv (iterator.getNext clock s row).stage
  closeInv : ∀ s, Inv s → Inv (iterator.close s)

/-- The locals a round of a loop body leaves. -/
def Flow.locals {β : Type} : Flow β → β
  | .again locals _ => locals
  | .done locals _ => locals
  | .throw _ locals => locals

variable {child : PlanStage σ} {Inv : σ → Prop}

/-- **The loop lemma.**  A loop over a timed child keeps the child's pace, and the child's invariant
    when it ends without an exception; its body does not touch the counter among its locals. -/
theorem whileAdvanced_timed {β : Type} (hchild : Timed child time Inv) {body : β → Row → Flow β}
    (micros : β → Nat) (hbody : ∀ locals row, micros (body locals row).locals = micros locals)
    (clock : Clock) (s : σ) (locals : β) (row : Row) :
    let loop := whileAdvanced child body clock s locals row
    micros loop.locals = micros locals ∧ Pace time clock s loop.clock loop.stage ∧
      (Inv s → ∀ state, loop.result = .ok state → Inv loop.stage) := by
  refine whileAdvanced_rule child body
    (I := fun clock' s' locals' => micros locals' = micros locals ∧ Pace time clock s clock' s' ∧
      (Inv s → Inv s'))
    (Q := fun loop => micros loop.locals = micros locals ∧
      Pace time clock s loop.clock loop.stage ∧
      (Inv s → ∀ state, loop.result = .ok state → Inv loop.stage))
    ?_ clock s locals row ⟨rfl, Pace.refl clock s, id⟩
  rintro clock' s' locals' row' ⟨hmicros, hpace, hinv⟩
  have hnext := hpace.trans (hchild.nextPace clock' s' row')
  have hkept := hchild.nextInv clock' s' row'
  generalize child.getNext clock' s' row' = call at hnext hkept ⊢
  obtain ⟨result, output, s'', clock''⟩ := call
  rcases result with e | state
  · exact ⟨hmicros, hnext, fun _ state h => (by cases h)⟩
  · rcases state with - | -
    · have hround := hbody locals' output
      show (RoundOk _ _ _ _ _)
      unfold RoundOk
      rcases hflow : body locals' output with ⟨locals'', left⟩ | ⟨locals'', left⟩ | ⟨e, locals''⟩
      · rw [hflow] at hround
        exact ⟨hround.trans hmicros, hnext, fun h => hkept _ (hinv h) rfl⟩
      · rw [hflow] at hround
        exact ⟨hround.trans hmicros, hnext, fun h _ _ => hkept _ (hinv h) rfl⟩
      · rw [hflow] at hround
        exact ⟨hround.trans hmicros, hnext, fun _ state h => (by cases h)⟩
    · exact ⟨hmicros, hnext, fun h _ _ => hkept _ (hinv h) rfl⟩

end Pace

/-! ## The wrapper

  The two places where a counter grows.  An `open()` adds the time of its hook in any case; a
  `getNext()` adds it only when its hook returns, so after an exception the child may be ahead of
  its parent. -/

section Wrapper

variable {F : Type} {hooks : StageHooks F}

/-- The counter of a stage object. -/
def StageObject.time (this : StageObject F) : Nat := this.base.stats.executionTimeMicros

/-- A hook leaves the stage's own counter alone, and takes its time. -/
structure KeepsTime (hooks : StageHooks F) : Prop where
  onOpen : ∀ clock this, clock.now ≤ (hooks.onOpen clock this).clock.now ∧
    (hooks.onOpen clock this).stage.stats.executionTimeMicros = this.stats.executionTimeMicros
  onGetNext : ∀ clock this output, clock.now ≤ (hooks.onGetNext clock this output).clock.now ∧
    (hooks.onGetNext clock this output).stage.stats.executionTimeMicros =
      this.stats.executionTimeMicros

/-- What an admitted `open()` does about timing: it always adds the time of its hook. -/
theorem open_timing (hooks : StageHooks F) (clock : Clock) {this : StageObject F}
    (hstate : this.base.state = .kUnopened) :
    let hook := PlanStageBase.openHook hooks clock this
    let call := hooks.planStage.open clock this
    call.result = hook.result ∧ call.clock = hook.clock.tick ∧
      call.stage.time = hook.stage.stats.executionTimeMicros + hook.clock.microsSince clock.now ∧
      (call.result = .ok () → call.stage.members = hook.stage.members) := by
  intro hook call
  have hcall : call = PlanStageBase.open hooks clock this := rfl
  rw [PlanStageBase.open, if_neg (not_not.mpr hstate)] at hcall
  rcases hresult : hook.result with e | u
  · unfold hook PlanStageBase.openHook at hresult
    simp only [hresult] at hcall
    rw [hcall]
    exact ⟨rfl, rfl, rfl, fun h => (by cases h)⟩
  · unfold hook PlanStageBase.openHook at hresult
    simp only [hresult] at hcall
    rw [hcall]
    exact ⟨rfl, rfl, rfl, fun _ => rfl⟩

/-- And an admitted `getNext()`: it adds the time of its hook if that returns. -/
theorem getNext_timing (hooks : StageHooks F) (clock : Clock) {this : StageObject F} (output : Row)
    (hstate : this.base.state = .kOpen) :
    let hook := PlanStageBase.getNextHook hooks clock this output
    let call := hooks.planStage.getNext clock this output
    call.result = hook.result ∧ call.stage.members = hook.stage.members ∧
      (∀ e, hook.result = .error e →
        call.clock = hook.clock ∧ call.stage.time = hook.stage.stats.executionTimeMicros) ∧
      ∀ state, hook.result = .ok state →
        call.clock = hook.clock.tick ∧ call.stage.time =
          hook.stage.stats.executionTimeMicros + hook.clock.microsSince clock.now := by
  intro hook call
  have hcall : call = PlanStageBase.getNext hooks clock this output := rfl
  have hadmit : ¬ (this.base.state = .kUnopened ∨ this.base.state = .kClosed) := by simp [hstate]
  have hnot : this.base.state ≠ .kEof := by simp [hstate]
  rw [PlanStageBase.getNext, if_neg hadmit, if_neg hnot] at hcall
  rcases hresult : hook.result with e | state
  · unfold hook PlanStageBase.getNextHook at hresult
    simp only [hresult] at hcall
    rw [hcall]
    exact ⟨rfl, rfl, fun _ _ => ⟨rfl, rfl⟩, fun _ h => (by cases h)⟩
  · unfold hook PlanStageBase.getNextHook at hresult
    simp only [hresult] at hcall
    rw [hcall]
    exact ⟨rfl, rfl, fun _ h => (by cases h), fun _ _ => ⟨rfl, rfl⟩⟩

/-- The time of a hook, rounded down, is no more than the clock has moved. -/
theorem Pace.timed {clock hookClock : Clock} {this this' : StageObject F}
    (hforward : clock.tick.now ≤ hookClock.now)
    (htime : this'.time = this.time + hookClock.microsSince clock.now) :
    Pace StageObject.time clock this hookClock.tick this' := by
  have hstart := clock.now_le_tick
  have hstop := hookClock.now_le_tick
  unfold Clock.microsSince at htime
  constructor
  · omega
  · omega

/-- An `open()` adds at most the time it took, also when it throws. -/
theorem KeepsTime.openPace (h : KeepsTime hooks) (clock : Clock) (this : StageObject F) :
    Pace StageObject.time clock this (hooks.planStage.open clock this).clock
      (hooks.planStage.open clock this).stage := by
  by_cases hstate : this.base.state = .kUnopened
  · obtain ⟨-, hclock, htime, -⟩ := open_timing hooks clock hstate
    obtain ⟨hforward, huntouched⟩ := h.onOpen clock.tick
      { stats := { this.base.stats with openCalls := this.base.stats.openCalls + 1 }
        members := this.members }
    rw [hclock]
    exact Pace.timed hforward (htime.trans (congrArg (· + _) huntouched))
  · rw [show hooks.planStage.open clock this = _ from PlanStageBase.open_rejected hstate]
    exact Pace.refl clock this

/-- A `getNext()` adds at most the time it took; when it throws it adds nothing. -/
theorem KeepsTime.nextPace (h : KeepsTime hooks) (clock : Clock) (this : StageObject F)
    (output : Row) :
    Pace StageObject.time clock this (hooks.planStage.getNext clock this output).clock
      (hooks.planStage.getNext clock this output).stage := by
  have hrejected : this.base.state = .kUnopened ∨ this.base.state = .kClosed →
      Pace StageObject.time clock this (hooks.planStage.getNext clock this output).clock
        (hooks.planStage.getNext clock this output).stage := by
    intro hstate
    rw [show hooks.planStage.getNext clock this output = _ from
      PlanStageBase.getNext_rejected hstate]
    exact Pace.refl clock this
  rcases hstate : this.base.state with _ | _ | _ | _
  · exact hrejected (.inl hstate)
  · obtain ⟨-, -, herror, hok⟩ := getNext_timing hooks clock output hstate
    obtain ⟨hforward, huntouched⟩ := h.onGetNext clock.tick
      { stats := { this.base.stats with getNextCalls := this.base.stats.getNextCalls + 1 }
        members := this.members } output
    rcases hresult : (PlanStageBase.getNextHook hooks clock this output).result with e | state
    · obtain ⟨hclock, htime⟩ := herror e hresult
      rw [hclock]
      exact Pace.of_eq (Nat.le_trans clock.now_le_tick hforward) (htime.trans huntouched)
    · obtain ⟨hclock, htime⟩ := hok state hresult
      rw [hclock]
      exact Pace.timed hforward (htime.trans (congrArg (· + _) huntouched))
  · exact hrejected (.inr hstate)
  · rw [show hooks.planStage.getNext clock this output = _ from PlanStageBase.getNext_eof hstate]
    exact Pace.of_eq (Nat.le_refl _) rfl

theorem close_time (hooks : StageHooks F) (this : StageObject F) :
    (hooks.planStage.close this).time = this.time := by
  simp only [StageHooks.planStage, PlanStageBase.close]
  split
  · rfl
  · rfl

end Wrapper

/-! ## A stage over a child

  A hook drives the child at the pace of the child, and everything it does happens between the two
  readings of the wrapper.  So the parent adds at least what the child has added. -/

section Parents

variable {σ Own : Type} {child : PlanStage σ} {ctime : σ → Nat} {CInv : σ → Prop}

/-- The child is not ahead of its parent, and `CInv` holds below. -/
structure Nested (ctime : σ → Nat) (CInv : σ → Prop) (this : StageObject (ParentStage Own σ)) :
    Prop where
  covers : ctime this.members.child ≤ this.time
  below : CInv this.members.child

/-- A hook over a child leaves its own counter alone, and drives the child at its pace. -/
structure HookPace (ctime : σ → Nat) (clock : Clock) (this : Protected (ParentStage Own σ))
    (clock' : Clock) (this' : Protected (ParentStage Own σ)) : Prop where
  untouched : this'.stats.executionTimeMicros = this.stats.executionTimeMicros
  child : Pace ctime clock this.members.child clock' this'.members.child

/-- What the hooks of a stage class have to guarantee about timing. -/
structure HooksTimed (hooks : StageHooks (ParentStage Own σ)) (child : PlanStage σ)
    (ctime : σ → Nat) (CInv : σ → Prop) : Prop where
  onOpen : ∀ clock this,
    let call := hooks.onOpen clock this
    HookPace ctime clock this call.clock call.stage ∧
      (CInv this.members.child → call.result = .ok () → CInv call.stage.members.child)
  onGetNext : ∀ clock this output,
    let call := hooks.onGetNext clock this output
    HookPace ctime clock this call.clock call.stage ∧
      (CInv this.members.child → ∀ state, call.result = .ok state →
        CInv call.stage.members.child)
  onClose : ∀ members, (hooks.onClose members).child = child.close members.child

variable {hooks : StageHooks (ParentStage Own σ)}

/-- What a stage guarantees about its child includes what it guarantees about itself. -/
theorem HooksTimed.keepsTime (h : HooksTimed hooks child ctime CInv) : KeepsTime hooks where
  onOpen clock this := by
    obtain ⟨⟨huntouched, hpace⟩, -⟩ := h.onOpen clock this
    exact ⟨hpace.forward, huntouched⟩
  onGetNext clock this output := by
    obtain ⟨⟨huntouched, hpace⟩, -⟩ := h.onGetNext clock this output
    exact ⟨hpace.forward, huntouched⟩

/-- **Nesting.**  What the child adds between two readings of its parent's, the parent adds too. -/
theorem Nested.of_pace {clock hookClock : Clock} {this this' : StageObject (ParentStage Own σ)}
    (hnested : Nested ctime CInv this)
    (hpace : Pace ctime clock.tick this.members.child hookClock this'.members.child)
    (htime : this'.time = this.time + hookClock.microsSince clock.now)
    (hbelow : CInv this'.members.child) : Nested ctime CInv this' := by
  refine ⟨?_, hbelow⟩
  have hcovers := hnested.covers
  have hstart := clock.now_le_tick
  obtain ⟨hforward, hcovered⟩ := hpace
  unfold Clock.microsSince at htime
  omega

/-- **The wrapper.**  Hooks that drive a timed child make a timed stage. -/
theorem HooksTimed.timed (h : HooksTimed hooks child ctime CInv) (hchild : Timed child ctime CInv) :
    Timed hooks.planStage StageObject.time (Nested ctime CInv) where
  openPace := h.keepsTime.openPace
  nextPace := h.keepsTime.nextPace
  closeTime := close_time hooks
  openInv clock this hnested hok := by
    by_cases hstate : this.base.state = .kUnopened
    · obtain ⟨hresult, -, htime, hmembers⟩ := open_timing hooks clock hstate
      obtain ⟨⟨huntouched, hpace⟩, hbelow⟩ := h.onOpen clock.tick
        { stats := { this.base.stats with openCalls := this.base.stats.openCalls + 1 }
          members := this.members }
      refine hnested.of_pace ?_ (htime.trans (congrArg (· + _) huntouched)) ?_
      · rw [hmembers hok]
        exact hpace
      · rw [hmembers hok]
        exact hbelow hnested.below (hresult.symm.trans hok)
    · rw [show hooks.planStage.open clock this = _ from PlanStageBase.open_rejected hstate] at hok
      cases hok
  nextInv clock this output state hnested hok := by
    have hrejected : this.base.state = .kUnopened ∨ this.base.state = .kClosed →
        Nested ctime CInv (hooks.planStage.getNext clock this output).stage := by
      intro hstate
      rw [show hooks.planStage.getNext clock this output = _ from
        PlanStageBase.getNext_rejected hstate] at hok
      cases hok
    rcases hstate : this.base.state with _ | _ | _ | _
    · exact hrejected (.inl hstate)
    · obtain ⟨hresult, hmembers, -, hreturned⟩ := getNext_timing hooks clock output hstate
      obtain ⟨⟨huntouched, hpace⟩, hbelow⟩ := h.onGetNext clock.tick
        { stats := { this.base.stats with getNextCalls := this.base.stats.getNextCalls + 1 }
          members := this.members } output
      have hhook := hresult.symm.trans hok
      obtain ⟨-, htime⟩ := hreturned state hhook
      refine hnested.of_pace ?_ (htime.trans (congrArg (· + _) huntouched)) ?_
      · rw [hmembers]
        exact hpace
      · rw [hmembers]
        exact hbelow hnested.below state hhook
    · exact hrejected (.inr hstate)
    · rw [show hooks.planStage.getNext clock this output = _ from PlanStageBase.getNext_eof hstate]
      exact ⟨hnested.covers, hnested.below⟩
  closeInv this hnested := by
    have hcovers := hnested.covers
    refine ⟨?_, ?_⟩
    · rw [close_time]
      simp only [StageHooks.planStage, PlanStageBase.close]
      split
      · exact hcovers
      · show ctime (hooks.onClose this.members).child ≤ this.time
        rw [h.onClose, hchild.closeTime]
        exact hcovers
    · simp only [StageHooks.planStage, PlanStageBase.close]
      split
      · exact hnested.below
      · show CInv (hooks.onClose this.members).child
        rw [h.onClose]
        exact hchild.closeInv _ hnested.below

/-! ## The stage classes

  One lemma per class.  A class owes only that its hooks leave the stage's own counter alone and
  call the child through its interface. -/

/-- Opening the child. -/
theorem openChild_timed (hchild : Timed child ctime CInv) (clock : Clock)
    (this : Protected (ParentStage Own σ)) :
    let call := openChild child clock this
    HookPace ctime clock this call.clock call.stage ∧
      (CInv this.members.child → call.result = .ok () → CInv call.stage.members.child) :=
  ⟨⟨rfl, hchild.openPace clock this.members.child⟩, hchild.openInv clock this.members.child⟩

theorem FilterStage.hooksTimed (hchild : Timed child ctime CInv) (predicate : Expression) :
    HooksTimed (FilterStage.hooks child predicate) child ctime CInv where
  onOpen := openChild_timed hchild
  onGetNext clock this output := by
    have hbody : ∀ stats row, (body predicate stats row).locals.executionTimeMicros =
        stats.executionTimeMicros := by
      intro stats row
      unfold body
      rcases predicate.test row with e | accepted
      · rfl
      · cases accepted <;> rfl
    obtain ⟨huntouched, hpace, hbelow⟩ :=
      whileAdvanced_timed hchild StageStats.executionTimeMicros hbody clock this.members.child
        this.stats {}
    exact ⟨⟨huntouched, hpace⟩, hbelow⟩
  onClose _ := rfl

theorem ProjectStage.hooksTimed (hchild : Timed child ctime CInv) (columnIndices : List Nat) :
    HooksTimed (ProjectStage.hooks child columnIndices) child ctime CInv where
  onOpen := openChild_timed hchild
  onGetNext clock this output := by
    have hpace := hchild.nextPace clock this.members.child {}
    have hbelow := hchild.nextInv clock this.members.child {}
    simp only [ProjectStage.hooks, ProjectStage.onGetNext]
    generalize child.getNext clock this.members.child {} = call at hpace hbelow ⊢
    obtain ⟨result, row, s', clock'⟩ := call
    rcases result with e | state
    · exact ⟨⟨rfl, hpace⟩, fun _ _ h => (by cases h)⟩
    · rcases state with - | -
      · simp only
        rcases ProjectStage.project columnIndices row with e | projected
        · exact ⟨⟨rfl, hpace⟩, fun _ _ h => (by cases h)⟩
        · exact ⟨⟨rfl, hpace⟩, fun h _ _ => hbelow _ h rfl⟩
      · exact ⟨⟨rfl, hpace⟩, fun h _ _ => hbelow _ h rfl⟩
  onClose _ := rfl

theorem LimitStage.hooksTimed (hchild : Timed child ctime CInv) (limit : Nat) :
    HooksTimed (LimitStage.hooks child limit) child ctime CInv where
  onOpen := openChild_timed hchild
  onGetNext clock this output := by
    have hpace := hchild.nextPace clock this.members.child output
    have hbelow := hchild.nextInv clock this.members.child output
    simp only [LimitStage.hooks, LimitStage.onGetNext]
    by_cases hfull : limit ≤ this.members.own.emitted
    · rw [if_pos hfull]
      exact ⟨⟨rfl, Pace.refl clock _⟩, fun h _ _ => h⟩
    · rw [if_neg hfull]
      generalize child.getNext clock this.members.child output = call at hpace hbelow ⊢
      obtain ⟨result, row, s', clock'⟩ := call
      rcases result with e | state
      · exact ⟨⟨rfl, hpace⟩, fun _ _ h => (by cases h)⟩
      · rcases state with - | -
        · exact ⟨⟨rfl, hpace⟩, fun h _ _ => hbelow _ h rfl⟩
        · exact ⟨⟨rfl, hpace⟩, fun h _ _ => hbelow _ h rfl⟩
  onClose _ := rfl

/-- A body that fills the buffer does not touch the stage's own counter. -/
theorem FillsBy.keepsTime {body : Drain → Row → Flow Drain}
    {fill : List Row → Row → Except Exception (List Row)} (hbody : FillsBy body fill) (drain : Drain)
    (row : Row) :
    (body drain row).locals.stats.executionTimeMicros = drain.stats.executionTimeMicros := by
  have hround := hbody drain row
  rcases hfill : fill drain.buffer row with e | buffer
  · rw [hfill] at hround
    rw [show body drain row = _ from hround]
    rfl
  · rw [hfill] at hround
    obtain ⟨left, hround⟩ := hround
    rw [hround]
    rfl

/-- A blocking stage opens and drains its child while it is opened, and leaves it alone from then
    on. -/
theorem BlockingStage.hooksTimed [StdLibrary] (hchild : Timed child ctime CInv) (name : String)
    {body : Drain → Row → Flow Drain} {fill : List Row → Row → Except Exception (List Row)}
    (hbody : FillsBy body fill) (comparator : RowComparator) :
    HooksTimed (BlockingStage.hooks name child body comparator) child ctime CInv where
  onOpen clock this := by
    have hpace := hchild.openPace clock this.members.child
    have hbelow := hchild.openInv clock this.members.child
    simp only [BlockingStage.hooks, BlockingStage.onOpen]
    generalize child.open clock this.members.child = opened at hpace hbelow ⊢
    obtain ⟨result, s', clock'⟩ := opened
    rcases result with e | u
    · exact ⟨⟨rfl, hpace⟩, fun _ h => (by cases h)⟩
    · obtain ⟨huntouched, hloop, hkept⟩ := whileAdvanced_timed hchild
        (fun drain : Drain => drain.stats.executionTimeMicros) hbody.keepsTime clock' s'
        { stats := this.stats, buffer := this.members.own.buffer } {}
      simp only
      generalize whileAdvanced child body clock' s' _ {} = loop at huntouched hloop hkept ⊢
      unfold BlockingStage.sortDrained
      rcases hresult : loop.result with e | state
      · exact ⟨⟨huntouched, hpace.trans hloop⟩, fun _ h => (by cases h)⟩
      · rcases stdSort comparator.call loop.locals.buffer with e | sorted
        · exact ⟨⟨huntouched, hpace.trans hloop⟩, fun _ h => (by cases h)⟩
        · exact ⟨⟨huntouched, hpace.trans hloop⟩, fun h _ => hkept (hbelow h rfl) state hresult⟩
  onGetNext clock this output := by
    simp only [BlockingStage.hooks, BlockingStage.onGetNext]
    -- the child is not called any more
    rcases this.members.own.buffer[this.members.own.nextIndex]? with - | row
    · exact ⟨⟨rfl, Pace.refl clock _⟩, fun h _ _ => h⟩
    · exact ⟨⟨rfl, Pace.refl clock _⟩, fun h _ _ => h⟩
  onClose _ := rfl

end Parents

/-! ## Whole plans

  By induction on the plan, from the leaf up. -/

namespace PlanStageTree

/-- The time counter of the root object. -/
def time (tree : PlanStageTree) (this : tree.Object) : Nat :=
  (tree.base this).stats.executionTimeMicros

/-- No stage of the plan is ahead of its parent. -/
def TimesNested : (tree : PlanStageTree) → tree.Object → Prop
  | collectionScanStage _ => fun _ => True
  | filterStage child _ => Nested child.time child.TimesNested
  | projectStage child _ => Nested child.time child.TimesNested
  | sortStage child _ => Nested child.time child.TimesNested
  | limitStage child _ => Nested child.time child.TimesNested
  | topKStage child _ _ => Nested child.time child.TimesNested

/-- The leaf has no child to account for. -/
theorem scan_timed (table : Table) :
    Timed (CollectionScanStage.hooks table).planStage StageObject.time fun _ => True := by
  have hkeeps : KeepsTime (CollectionScanStage.hooks table) := by
    constructor
    · intro clock this
      exact ⟨Nat.le_refl _, rfl⟩
    · intro clock this output
      simp only [CollectionScanStage.hooks, CollectionScanStage.onGetNext]
      rcases table.rows[this.members.nextIndex]? with - | row
      · exact ⟨Nat.le_refl _, rfl⟩
      · exact ⟨Nat.le_refl _, rfl⟩
  exact ⟨hkeeps.openPace, hkeeps.nextPace, close_time _, fun _ _ _ _ => trivial,
    fun _ _ _ _ _ _ => trivial, fun _ _ => trivial⟩

/-- **Every plan is timed.** -/
theorem timed [StdLibrary] : ∀ tree : PlanStageTree, Timed tree.planStage tree.time tree.TimesNested
  | collectionScanStage table => scan_timed table
  | filterStage child predicate => (FilterStage.hooksTimed child.timed predicate).timed child.timed
  | projectStage child columnIndices =>
    (ProjectStage.hooksTimed child.timed columnIndices).timed child.timed
  | sortStage child comparator =>
    (BlockingStage.hooksTimed child.timed "SortStage" SortStage.body_fillsBy comparator).timed
      child.timed
  | limitStage child limit => (LimitStage.hooksTimed child.timed limit).timed child.timed
  | topKStage child comparator k =>
    (BlockingStage.hooksTimed child.timed "TopKStage" (TopKStage.body_fillsBy comparator k)
      comparator).timed child.timed

theorem time_constructed (tree : PlanStageTree) : tree.time tree.constructed = 0 := by
  rw [time, base_constructed]

theorem timesNested_constructed : ∀ tree : PlanStageTree, tree.TimesNested tree.constructed
  | collectionScanStage _ => trivial
  | filterStage child _ | projectStage child _ | sortStage child _ | limitStage child _
  | topKStage child _ _ =>
    ⟨Nat.le_of_eq child.time_constructed, child.timesNested_constructed⟩

/-! ## The invariant, stage by stage

  The same for the flat list of the stages, in which a report shows them: each covers the next, and
  the first is the root. -/

/-- The time counter of a stage seen from outside. -/
def StageView.time (view : StageView) : Nat := view.base.stats.executionTimeMicros

/-- The flat list of a plan: each stage covers the next, and the first is the root. -/
structure TimesOk (root : Nat) (views : List StageView) : Prop where
  root : views.head?.map StageView.time = some root
  linked : views.IsChain fun parent child => child.time ≤ parent.time

theorem TimesOk.parent {view : StageView} {views : List StageView} {root child : Nat}
    (h : TimesOk child views) (hcovers : child ≤ root) (htime : view.time = root) :
    TimesOk root (view :: views) := by
  obtain ⟨hroot, hlinked⟩ := h
  subst htime
  refine ⟨rfl, ?_⟩
  rcases views with - | ⟨next, rest⟩
  · exact .singleton view
  · have hnext : next.time = child := Option.some.inj hroot
    exact List.isChain_cons_cons.mpr ⟨hnext.trans_le hcovers, hlinked⟩

/-- The nesting of a plan is the chain of the flat list of its stages. -/
theorem timesNested_stages : ∀ (tree : PlanStageTree) {this : tree.Object},
    tree.TimesNested this → TimesOk (tree.time this) (tree.stages this)
  | collectionScanStage _, _, _ => ⟨rfl, .singleton _⟩
  | filterStage child _, _, h | projectStage child _, _, h | sortStage child _, _, h
  | limitStage child _, _, h | topKStage child _ _, _, h =>
    (child.timesNested_stages h.below).parent h.covers rfl

/-- The root is ahead of every stage. -/
theorem TimesOk.le_root {root : Nat} {views : List StageView} (h : TimesOk root views) :
    ∀ view ∈ views, view.time ≤ root := by
  obtain ⟨hroot, hlinked⟩ := h
  induction views generalizing root with
  | nil => intro view hview; cases hview
  | cons first rest ih =>
    have hfirst : first.time = root := Option.some.inj hroot
    intro view hview
    rcases List.mem_cons.mp hview with rfl | hview
    · exact Nat.le_of_eq hfirst
    · rcases rest with - | ⟨next, rest⟩
      · cases hview
      · obtain ⟨hlink, hrest⟩ := List.isChain_cons_cons.mp hlinked
        have hnext : view.time ≤ next.time := ih rfl hrest view hview
        omega

end PlanStageTree

/-! ## Runs -/

section Runs

variable {σ : Type} {root : PlanStage σ} {time : σ → Nat} {Inv : σ → Prop}

/-- **The step lemma.**  A call on the root that does not throw keeps the invariant. -/
theorem Timed.rootCall (h : Timed root time Inv) (session : Session σ) (hInv : Inv session.stage)
    (call : RootCall) (hcalm : (QueryLume.rootCall root session call).1.exception? = none) :
    Inv (QueryLume.rootCall root session call).2.stage := by
  obtain ⟨s, clock⟩ := session
  cases call with
  | «open» =>
    have hkept := h.openInv clock s hInv
    simp only [QueryLume.rootCall] at hcalm ⊢
    rcases hresult : (root.open clock s).result with e | u
    · rw [hresult] at hcalm; cases hcalm
    · exact hkept hresult
  | getNext row =>
    have hkept := h.nextInv clock s row
    simp only [QueryLume.rootCall] at hcalm ⊢
    rcases hresult : (root.getNext clock s row).result with e | state
    · rw [hresult] at hcalm; cases hcalm
    · exact hkept state hInv hresult
  | close => exact h.closeInv s hInv

/-- **The run lemma.**  Any calls that return keep the invariant. -/
theorem Timed.rootCalls (h : Timed root time Inv) :
    ∀ (calls : List RootCall) (session : Session σ), Inv session.stage →
      (∀ outcome ∈ (QueryLume.rootCalls root session calls).1, outcome.exception? = none) →
      Inv (QueryLume.rootCalls root session calls).2.stage := by
  intro calls
  induction calls with
  | nil => intro session hInv _; exact hInv
  | cons call calls ih =>
    intro session hInv hcalm
    have hfirst := h.rootCall session hInv call (hcalm _ List.mem_cons_self)
    exact ih _ hfirst fun outcome houtcome => hcalm outcome (List.mem_cons_of_mem _ houtcome)

/-- A guarded run that returns rows keeps it, too. -/
theorem Timed.execute (h : Timed root time Inv) {clock : Clock} {s : σ} (hInv : Inv s)
    {rows : List Row} (hok : (QueryLume.execute root clock s).result = .ok rows) :
    Inv (QueryLume.execute root clock s).stage := by
  have hopenInv := h.openInv clock s hInv
  unfold QueryLume.execute at hok ⊢
  rcases hopen : (root.open clock s).result with e | u
  · simp only [hopen] at hok
    cases hok
  · simp only [hopen] at hok ⊢
    -- the result loop of the caller counts no time
    obtain ⟨-, -, hkept⟩ := whileAdvanced_timed h (fun _ : List Row => 0) (fun _ _ => rfl)
      (root.open clock s).clock (root.open clock s).stage [] {}
    obtain ⟨state, hstate, -⟩ := Except.map_eq_ok hok
    exact h.closeInv _ (hkept (hopenInv hopen) state hstate)

end Runs

/-- **Inclusive timing.**  After any calls on the root of any plan, under any steady clock, that did
    not throw, no stage's time exceeds its parent's, and the root's is the largest; and so in every
    analysis that is reported. -/
theorem timing_inclusive [StdLibrary] (clock : Clock) :
    (∀ (tree : PlanStageTree) (calls : List RootCall),
      let run := rootCalls tree.planStage (tree.session clock) calls
      let views := tree.stages run.2.stage
      (∀ outcome ∈ run.1, outcome.exception? = none) →
      views.IsChain (fun parent child =>
        child.base.stats.executionTimeMicros ≤ parent.base.stats.executionTimeMicros) ∧
      ∀ view ∈ views, view.base.stats.executionTimeMicros ≤
        (tree.base run.2.stage).stats.executionTimeMicros) ∧
    ∀ (table : Table) (pipelineJson : Json) (analysis : Analysis),
      analyze clock table pipelineJson = .ok analysis →
      let views := analysis.planned.physicalRoot.stages analysis.stage
      views.IsChain (fun parent child =>
        child.base.stats.executionTimeMicros ≤ parent.base.stats.executionTimeMicros) ∧
      ∀ view ∈ views,
        view.base.stats.executionTimeMicros ≤ analysis.global.totalExecutionTimeMicros := by
  constructor
  · intro tree calls run views hcalm
    have hnested : tree.TimesNested run.2.stage :=
      tree.timed.rootCalls calls (tree.session clock) tree.timesNested_constructed hcalm
    have hok := tree.timesNested_stages hnested
    exact ⟨hok.linked, hok.le_root⟩
  · intro table pipelineJson analysis hanalyze views
    unfold analyze at hanalyze
    rcases hplan : planQuery table pipelineJson with e | planned
    · rw [hplan] at hanalyze; cases hanalyze
    · rw [hplan] at hanalyze
      obtain ⟨rows, hrows, rfl⟩ := Except.map_eq_ok hanalyze
      have hnested := planned.physicalRoot.timed.execute
        planned.physicalRoot.timesNested_constructed hrows
      have hok := planned.physicalRoot.timesNested_stages hnested
      exact ⟨hok.linked, hok.le_root⟩

/-- A clock that moves 1500 nanoseconds between two readings. -/
def walkingClock : Clock := ⟨fun i => 1500 * i, fun _ _ h => Nat.mul_le_mul_left 1500 h⟩

theorem timing_inclusive_limit :
    letI := StdLibrary.reference
    let tree := PlanStageTree.limitStage (.collectionScanStage remarkTable) 1
    let run := rootCalls tree.planStage (tree.session walkingClock)
      [.open, .getNext {}, .getNext {}, .close]
    let views := tree.stages run.2.stage
    views.map (·.base.stats.executionTimeMicros) = [9, 2] ∧
    views.IsChain (fun parent child =>
      child.base.stats.executionTimeMicros ≤ parent.base.stats.executionTimeMicros) := by
  let reference : StdLibrary := StdLibrary.reference
  intro tree run views
  have hcalm : ∀ outcome ∈ run.1, outcome.exception? = none := by decide
  exact ⟨by decide, ((timing_inclusive walkingClock).1 tree _ hcalm).1⟩

end QueryLume
