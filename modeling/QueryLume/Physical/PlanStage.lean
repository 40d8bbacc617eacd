/-
  The pull-iterator interface (`plan_stage.h`).

  1. **A stage is an object with state** — a call takes the state before and gives the state after,
     ALSO when it ends with an exception: nothing is rolled back by the language.  `getNext` writes
     through its reference argument, so its result carries the row variable as well, with what was
     in it when the call wrote nothing.

  2. **The clock** — timing reads a steady clock, which is threaded through every call: a call
     returns the clock with the readings it has taken removed.  Results never depend on it; that
     they do not is proved where it is used (`Physical/Bisimulation.lean`).

  3. **The one loop** — every consumer of a child runs

  `while (child->getNext(row) == kAdvanced) { body }`

  and `whileAdvanced` is it, with `whileAdvanced_rule` as its invariant rule: what holds on entry
  and is kept by every round holds at the end, whichever way the loop is left.  The loop is a
  recursion on how many rows the stage can still deliver: an interface has a `bound`, and a call
  that advances makes it smaller.  So there is no fuel, and no question whether a run ends.
-/
import QueryLume.Common.Error
import QueryLume.Data.Table
import Mathlib.Order.Monotone.Basic

namespace QueryLume

/-- What a call of `getNext` answers: a row has been written, or there are no more. -/
inductive StageState where
  | kAdvanced
  | kEof
deriving DecidableEq, Repr

/-- Per-stage runtime counters.  They are 64 bits wide in the source; no run is long enough to
    wrap them. -/
structure StageStats where
  rowsIn : Nat := 0
  rowsOut : Nat := 0
  openCalls : Nat := 0
  getNextCalls : Nat := 0
  executionTimeMicros : Nat := 0
  peakMemoryBytes : Nat := 0
deriving DecidableEq

/-! ## The clock -/

/-- A steady clock, as the readings it is still going to give, in nanoseconds. -/
structure Clock where
  readings : Nat → Nat
  steady : Monotone readings

namespace Clock

/-- `Clock::now()`. -/
def now (clock : Clock) : Nat := clock.readings 0

/-- The clock after one reading. -/
def tick (clock : Clock) : Clock where
  readings i := clock.readings (i + 1)
  steady _ _ h := clock.steady (Nat.succ_le_succ h)

/-- `microsSince(start)`, rounded down; it takes one reading. -/
def microsSince (clock : Clock) (start : Nat) : Nat := (clock.now - start) / 1000

/-- A clock that stands still. -/
def still : Clock := ⟨fun _ => 0, fun _ _ _ => Nat.le_refl 0⟩

end Clock

/-! ## Calls -/

/-- How a call without a result value ended, and what it left behind. -/
structure OpenCall (σ : Type) where
  result : Except Exception Unit
  stage : σ
  clock : Clock

/-- How a `getNext` ended, what the caller's row variable holds, and what it left behind. -/
structure NextCall (σ : Type) where
  result : Except Exception StageState
  output : Row
  stage : σ
  clock : Clock

/-- The interface, for stages whose state is a `σ`. -/
structure PlanStage (σ : Type) where
  «open» : Clock → σ → OpenCall σ
  getNext : Clock → σ → Row → NextCall σ
  close : σ → σ
  /-- At most so many calls can still advance. -/
  bound : σ → Nat
  bound_getNext : ∀ clock stage row, (getNext clock stage row).result = .ok .kAdvanced →
    bound (getNext clock stage row).stage < bound stage

/-! ## The pull loop -/

/-- How a round of a loop body ends: the loop's local state, and the row variable. -/
inductive Flow (β : Type) where
  | again (locals : β) (row : Row)
  /-- Leaves the loop with the row at hand. -/
  | done (locals : β) (row : Row)
  | throw (e : Exception) (locals : β)

/-- How a loop ended: `kEof` when the child ran out, `kAdvanced` when the body left the loop. -/
structure LoopCall (σ β : Type) where
  result : Except Exception StageState
  locals : β
  row : Row
  stage : σ
  clock : Clock

section Loop

variable {σ β : Type}

/-- `fuel` rounds of the loop at most.  A round asks the child and hands its row to the body,
    which goes on, leaves the loop or throws. -/
def pullRounds (child : PlanStage σ) (body : β → Row → Flow β) :
    Nat → Clock → σ → β → Row → LoopCall σ β
  -- not reached with `bound + 1` rounds
  | 0, clock, stage, locals, row => { result := .ok .kEof, locals, row, stage, clock }
  | fuel + 1, clock, stage, locals, row =>
    let call := child.getNext clock stage row
    match call.result with
    | .error e =>
      { result := .error e, locals, row := call.output, stage := call.stage, clock := call.clock }
    | .ok .kEof =>
      { result := .ok .kEof, locals, row := call.output, stage := call.stage, clock := call.clock }
    | .ok .kAdvanced =>
      match body locals call.output with
      | .again locals row => pullRounds child body fuel call.clock call.stage locals row
      | .done locals row =>
        { result := .ok .kAdvanced, locals, row, stage := call.stage, clock := call.clock }
      | .throw e locals =>
        { result := .error e, locals, row := call.output, stage := call.stage,
          clock := call.clock }

/-- `while (child->getNext(row) == StageState::kAdvanced) { body }`.  The measure of the child
    bounds the rounds, so the loop ends by itself and its fuel is never used up. -/
def whileAdvanced (child : PlanStage σ) (body : β → Row → Flow β) (clock : Clock) (stage : σ)
    (locals : β) (row : Row) : LoopCall σ β :=
  pullRounds child body (child.bound stage + 1) clock stage locals row

/-- What a round has to establish after the child's answer `call`: the invariant again, or the
    postcondition on the way out. -/
def RoundOk (body : β → Row → Flow β) (I : Clock → σ → β → Prop) (Q : LoopCall σ β → Prop)
    (locals : β) (call : NextCall σ) : Prop :=
  match call.result with
  | .error e =>
    Q { result := .error e, locals, row := call.output, stage := call.stage, clock := call.clock }
  | .ok .kEof =>
    Q { result := .ok .kEof, locals, row := call.output, stage := call.stage, clock := call.clock }
  | .ok .kAdvanced =>
    match body locals call.output with
    | .again locals _ => I call.clock call.stage locals
    | .done locals row =>
      Q { result := .ok .kAdvanced, locals, row, stage := call.stage, clock := call.clock }
    | .throw e locals =>
      Q { result := .error e, locals, row := call.output, stage := call.stage,
          clock := call.clock }

/-- **The loop rule.**  An invariant that every round keeps or leaves into the postcondition gives
    the postcondition of the loop. -/
theorem whileAdvanced_rule (child : PlanStage σ) (body : β → Row → Flow β)
    {I : Clock → σ → β → Prop} {Q : LoopCall σ β → Prop}
    (hround : ∀ clock stage locals row, I clock stage locals →
      RoundOk body I Q locals (child.getNext clock stage row))
    (clock : Clock) (stage : σ) (locals : β) (row : Row) (hinit : I clock stage locals) :
    Q (whileAdvanced child body clock stage locals row) := by
  have hrounds : ∀ fuel clock stage locals row, child.bound stage < fuel → I clock stage locals →
      Q (pullRounds child body fuel clock stage locals row) := by
    intro fuel
    induction fuel with
    | zero => intro clock stage locals row hlt; exact absurd hlt (Nat.not_lt_zero _)
    | succ fuel ih =>
      intro clock stage locals row hlt hI
      have h := hround clock stage locals row hI
      have hbound := child.bound_getNext clock stage row
      unfold RoundOk at h
      unfold pullRounds
      generalize child.getNext clock stage row = call at h hbound
      obtain ⟨result, output, stage', clock'⟩ := call
      cases result with
      | error e => exact h
      | ok state =>
        cases state with
        | kEof => exact h
        | kAdvanced =>
          simp only at h ⊢
          cases hbody : body locals output with
          | again locals' row' =>
            rw [hbody] at h
            exact ih clock' stage' locals' row' (Nat.lt_of_lt_of_le (hbound rfl) (Nat.lt_succ_iff.mp hlt)) h
          | done locals' row' => rw [hbody] at h; exact h
          | throw e locals' => rw [hbody] at h; exact h
  exact hrounds _ clock stage locals row (Nat.lt_succ_self _) hinit

end Loop

end QueryLume
