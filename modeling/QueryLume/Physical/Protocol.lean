/-
  Whole plans under arbitrary sequences of root calls.

  1. **The invariant of a plan** — `PlanStageTree.Inv` assembles the stage invariants along the
     chain.

  2. **The contract of the root** — `contract` shows by recursion on the plan that its root keeps
     its contract, each class by its `HooksOk` over the contract of its child.

  3. **The run lemma** — `rootCalls_inv` carries the invariant through any finite sequence of calls
     on the root, whether they return, throw or are rejected; nothing is assumed about the order of
     the calls, the rows a caller passes in, or the clock.

  4. **Reading it off** — `stages_ok` turns the invariant, which is nested like the plan, into
     facts about the flat list of stages: which states of a parent and its child fit together, and
     which of their counters are equal.
-/
import QueryLume.Physical.StageInvariants
import QueryLume.Physical.Execution

namespace QueryLume

open StdAlgorithms

namespace PlanStageTree

/-! ## The invariant of a plan -/

/-- The invariants of all stages, tied together. -/
def Inv : (tree : PlanStageTree) → Bool → tree.Object → Prop
  | collectionScanStage table => StageInv (ScanInv table)
  | filterStage child _ => StageInv (ParentInv child.base child.Inv true (OwnAlways NoOwn))
  | projectStage child _ => StageInv (ParentInv child.base child.Inv true (OwnAlways NoOwn))
  | sortStage child _ => StageInv (ParentInv child.base child.Inv false (HoldsBuffer fun _ => True))
  | limitStage child limit =>
    StageInv (ParentInv child.base child.Inv true (OwnAlways (CountsEmitted limit)))
  | topKStage child _ k => StageInv (ParentInv child.base child.Inv false (HoldsBuffer (· ≤ k)))

/-- **Every plan keeps the contract of a stage.** -/
theorem contract [StdLibrary] :
    ∀ tree : PlanStageTree, Contract tree.planStage tree.base tree.Inv
  | collectionScanStage table => (CollectionScanStage.hooksOk table).contract
  | filterStage child predicate => (FilterStage.hooksOk child.contract predicate).contract
  | projectStage child columnIndices => (ProjectStage.hooksOk child.contract columnIndices).contract
  | sortStage child comparator => (SortStage.hooksOk child.contract comparator).contract
  | limitStage child limit => (LimitStage.hooksOk child.contract limit).contract
  | topKStage child comparator k => (TopKStage.hooksOk child.contract comparator k).contract

/-- A fresh base is in order. -/
theorem baseOk_fresh : BaseOk {} := ⟨fun _ => rfl, Nat.zero_le _, Nat.le_refl _, rfl⟩

/-- A fresh parent over a fresh child. -/
theorem parentInv_fresh {σ Own : Type} {cbase : σ → PlanStageBase} {CInv : Bool → σ → Prop}
    {streaming : Bool} {Holds : LifecycleState → Nat → Nat → Own → Prop} {s : σ} {own : Own}
    (hbase : cbase s = {}) (hchild : CInv true s) (hown : Holds .kUnopened 0 0 own) :
    StageInv (ParentInv cbase CInv streaming Holds) true
      { members := { child := s, own := own } } := by
  refine ⟨baseOk_fresh, ⟨.kUnopened, rfl, hchild, ?_, ?_, fun _ => ?_⟩, Nat.le_refl _, hown⟩
  · simp only [hbase]
  · simp only [hbase]
  · simp only [Balanced, hbase]

/-- Every stage starts fresh. -/
theorem base_constructed : ∀ tree : PlanStageTree, tree.base tree.constructed = {}
  | collectionScanStage _ | filterStage _ _ | projectStage _ _ | sortStage _ _ | limitStage _ _
  | topKStage _ _ _ => rfl

/-- The plan as built satisfies the invariant. -/
theorem inv_constructed : ∀ tree : PlanStageTree, tree.Inv true tree.constructed
  | collectionScanStage _ => ⟨baseOk_fresh, rfl, rfl, Nat.zero_le _, fun _ => rfl⟩
  | filterStage child _ => parentInv_fresh child.base_constructed child.inv_constructed trivial
  | projectStage child _ => parentInv_fresh child.base_constructed child.inv_constructed trivial
  | limitStage child _ =>
    parentInv_fresh child.base_constructed child.inv_constructed ⟨rfl, Nat.zero_le _⟩
  | sortStage child _ =>
    parentInv_fresh child.base_constructed child.inv_constructed
      ⟨rfl, trivial, fun _ => rfl, fun _ => ⟨Nat.le_refl _, Nat.le_refl _, trivial⟩⟩
  | topKStage child _ _ =>
    parentInv_fresh child.base_constructed child.inv_constructed
      ⟨rfl, Nat.zero_le _, fun _ => rfl, fun _ => ⟨Nat.le_refl _, Nat.le_refl _, Nat.zero_le _⟩⟩

/-! ## The invariant, stage by stage -/

/-- The most rows a stage may have given out, where its class bounds them. -/
def AtMost : PlanStageTree → Nat → Prop
  | collectionScanStage table, rowsOut => rowsOut ≤ table.rows.length
  | limitStage _ limit, rowsOut => rowsOut ≤ limit
  | topKStage _ _ k, rowsOut => rowsOut ≤ k
  | _, _ => True

/-- One stage by itself. -/
structure StageView.Ok (view : StageView) : Prop where
  base : BaseOk view.base
  atMost : view.tree.AtMost view.base.stats.rowsOut
  released : view.base.state = .kClosed → view.buffer = []

/-- The states of a stage and of its child fit together. -/
structure StatesFit (parent child : LifecycleState) : Prop where
  unopened : parent = .kUnopened → child = .kUnopened
  running : parent = .kOpen ∨ parent = .kEof → child = .kOpen ∨ child = .kEof
  closed : parent = .kClosed → child = .kClosed

/-- A stage and its child. -/
structure StageView.Linked (calm : Bool) (parent child : StageView) : Prop where
  rows : parent.base.stats.rowsIn = child.base.stats.rowsOut
  states : StatesFit parent.base.state child.base.state
  balanced : calm = true → Balanced child.base

/-- Tied states fit. -/
theorem statesFit_of_childState {streaming : Bool} {parent child : LifecycleState}
    (h : ChildState streaming parent child) : StatesFit parent child := by
  cases parent with
  | kUnopened => exact ⟨fun _ => h, fun h' => absurd h' (by decide), fun h' => (by cases h')⟩
  | kClosed => exact ⟨fun h' => (by cases h'), fun h' => absurd h' (by decide), fun _ => h⟩
  | kEof => exact ⟨fun h' => (by cases h'), fun _ => h, fun h' => (by cases h')⟩
  | kOpen =>
    refine ⟨fun h' => (by cases h'), fun _ => ?_, fun h' => (by cases h')⟩
    cases streaming with
    | true => exact .inl h
    | false => exact .inr h

/-- Facts about every stage of a plan and about every stage and its child. -/
structure StagesOk (calm : Bool) (base : PlanStageBase) (views : List StageView) : Prop where
  root : views.head?.map (·.base) = some base
  each : ∀ view ∈ views, view.Ok
  linked : views.IsChain (StageView.Linked calm)

/-- The flat list of a parent, from that of its child. -/
theorem StagesOk.parent {σ Own : Type} {cbase : σ → PlanStageBase} {CInv : Bool → σ → Prop}
    {streaming : Bool} {Holds : LifecycleState → Nat → Nat → Own → Prop} {calm : Bool}
    {this : StageObject (ParentStage Own σ)} {views : List StageView} {view : StageView}
    (hInv : StageInv (ParentInv cbase CInv streaming Holds) calm this)
    (hchild : CInv calm this.members.child → StagesOk calm (cbase this.members.child) views)
    (hbase : view.base = this.base) (hmost : view.tree.AtMost this.base.stats.rowsOut)
    (hreleased : this.base.state = .kClosed → view.buffer = []) :
    StagesOk calm this.base (view :: views) := by
  obtain ⟨hbaseOk, ⟨childState, hstate, hdriven⟩, -, -⟩ := hInv
  obtain ⟨hroot, heach, hlinked⟩ := hchild hdriven.inv
  refine ⟨by rw [List.head?_cons, Option.map_some, hbase], ?_, ?_⟩
  · intro v hv
    rcases List.mem_cons.mp hv with rfl | hv
    · exact ⟨hbase ▸ hbaseOk, hbase ▸ hmost, hbase ▸ hreleased⟩
    · exact heach v hv
  · cases views with
    | nil => exact .singleton view
    | cons next rest =>
      have hnext : next.base = cbase this.members.child := Option.some.inj hroot
      refine List.isChain_cons_cons.mpr ⟨⟨?_, ?_, ?_⟩, hlinked⟩
      · rw [hbase, hnext]; exact hdriven.rows
      · rw [hbase, hnext, hdriven.state]; exact statesFit_of_childState hstate
      · rw [hnext]; exact hdriven.balanced

/-- **The invariant, stage by stage.** -/
theorem stages_ok : ∀ (tree : PlanStageTree) {calm : Bool} {this : tree.Object},
    tree.Inv calm this → StagesOk calm (tree.base this) (tree.stages this)
  | collectionScanStage table, calm, this, hInv => by
    have hscan : StageInv (ScanInv table) calm this := hInv
    refine ⟨rfl, fun view hview => ?_, .singleton _⟩
    obtain rfl := List.mem_singleton.mp hview
    exact ⟨hscan.1, hscan.2.2.2.1, fun _ => rfl⟩
  | filterStage child _, _, _, hInv | projectStage child _, _, _, hInv =>
    StagesOk.parent hInv child.stages_ok rfl trivial fun _ => rfl
  | limitStage child _, _, _, hInv =>
    StagesOk.parent hInv child.stages_ok rfl hInv.2.own.2 fun _ => rfl
  | sortStage child _, _, _, hInv =>
    StagesOk.parent hInv child.stages_ok rfl trivial fun h => hInv.2.own.empty (.inr h)
  | topKStage child _ _, _, _, hInv =>
    StagesOk.parent hInv child.stages_ok rfl hInv.2.own.fits fun h => hInv.2.own.empty (.inr h)

/-- Below a closed root everything is closed. -/
theorem StagesOk.all_closed {calm : Bool} {base : PlanStageBase} {views : List StageView}
    (h : StagesOk calm base views) (hclosed : base.state = .kClosed) :
    ∀ view ∈ views, view.base.state = .kClosed := by
  obtain ⟨hroot, -, hlinked⟩ := h
  induction views generalizing base with
  | nil => cases hroot
  | cons view views ih =>
    obtain rfl : view.base = base := Option.some.inj hroot
    intro v hv
    rcases List.mem_cons.mp hv with rfl | hv
    · exact hclosed
    · cases views with
      | nil => cases hv
      | cons next rest =>
        obtain ⟨hlink, hrest⟩ := List.isChain_cons_cons.mp hlinked
        exact ih (hlink.states.closed hclosed) rfl hrest v hv

end PlanStageTree

/-! ## Calls on the root -/

/-- A call a caller can make on the root. -/
inductive RootCall where
  | «open»
  | getNext (row : Row)
  | close

/-- What the caller of the root sees. -/
inductive RootOutcome where
  | opened (result : Except Exception Unit)
  | pulled (result : Except Exception StageState) (output : Row)
  | closed

namespace RootOutcome

/-- The exception a call ended with, if any. -/
def exception? : RootOutcome → Option Exception
  | opened (.error e) => some e
  | pulled (.error e) _ => some e
  | _ => none

/-- The call delivered a row. -/
def advanced : RootOutcome → Bool
  | pulled (.ok .kAdvanced) _ => true
  | _ => false

/-- The call failed the lifecycle check. -/
def rejected (outcome : RootOutcome) : Prop :=
  outcome.exception?.bind Exception.code = some .kInvalidStageLifecycle

end RootOutcome

/-- A stage between two calls. -/
structure Session (σ : Type) where
  stage : σ
  clock : Clock

section Calls

variable {σ : Type}

/-- Make the call: what comes back, and what is left. -/
def rootCall (root : PlanStage σ) (session : Session σ) : RootCall → RootOutcome × Session σ
  | .open =>
    let call := root.open session.clock session.stage
    (.opened call.result, ⟨call.stage, call.clock⟩)
  | .getNext row =>
    let call := root.getNext session.clock session.stage row
    (.pulled call.result call.output, ⟨call.stage, call.clock⟩)
  | .close => (.closed, ⟨root.close session.stage, session.clock⟩)

/-- A sequence of calls: the outcomes, and what is left. -/
def rootCalls (root : PlanStage σ) : Session σ → List RootCall → List RootOutcome × Session σ
  | session, [] => ([], session)
  | session, call :: calls =>
    let first := rootCall root session call
    let rest := rootCalls root first.2 calls
    (first.1 :: rest.1, rest.2)

/-! ## The documented automaton -/

/-- The state the documentation puts a stage in after an outcome. -/
def LifecycleState.after : LifecycleState → RootOutcome → LifecycleState
  | _, .opened (.ok ()) => .kOpen
  | .kUnopened, .opened (.error _) => .kClosed
  | _, .pulled (.ok .kEof) _ => .kEof
  | _, .closed => .kClosed
  | state, _ => state

/-- What the documentation allows a call to end with, by state. -/
inductive Documented : LifecycleState → RootCall → RootOutcome → Prop where
  | openOk : Documented .kUnopened .open (.opened (.ok ()))
  | openFails {e : Exception} (own : e.NotLifecycle) :
      Documented .kUnopened .open (.opened (.error e))
  | openTwice {state : LifecycleState} {e : Exception} (state_ne : state ≠ .kUnopened)
      (code : e.code = some .kInvalidStageLifecycle) :
      Documented state .open (.opened (.error e))
  | advanced (row output : Row) :
      Documented .kOpen (.getNext row) (.pulled (.ok .kAdvanced) output)
  | eof (row : Row) : Documented .kOpen (.getNext row) (.pulled (.ok .kEof) row)
  | getNextFails {e : Exception} (row : Row) (own : e.NotLifecycle) :
      Documented .kOpen (.getNext row) (.pulled (.error e) row)
  | eofAgain (row : Row) : Documented .kEof (.getNext row) (.pulled (.ok .kEof) row)
  | notOpen {state : LifecycleState} {e : Exception} (row : Row)
      (notRunning : state = .kUnopened ∨ state = .kClosed)
      (code : e.code = some .kInvalidStageLifecycle) :
      Documented state (.getNext row) (.pulled (.error e) row)
  | closed (state : LifecycleState) : Documented state .close .closed

variable {root : PlanStage σ} {base : σ → PlanStageBase} {Inv : Bool → σ → Prop}

/-- Everything one call on a root does. -/
structure RootStep (base : σ → PlanStageBase) (Inv : Bool → σ → Prop) (calm : Bool)
    (before : σ) (call : RootCall) (outcome : RootOutcome) (after : σ) : Prop where
  inv : Inv (calm && outcome.exception?.isNone) after
  documented : Documented (base before).state call outcome
  state : (base after).state = (base before).state.after outcome
  rowsOut : (base after).stats.rowsOut = (base before).stats.rowsOut + outcome.advanced.toNat
  rejected : outcome.rejected → after = before

theorem RootOutcome.not_rejected_of_none {outcome : RootOutcome} (h : outcome.exception? = none) :
    ¬ outcome.rejected := by
  unfold RootOutcome.rejected
  rw [h]
  intro hcode
  cases hcode

theorem RootOutcome.not_rejected_of_some {outcome : RootOutcome} {e : Exception}
    (h : outcome.exception? = some e) (hnot : e.NotLifecycle) : ¬ outcome.rejected := by
  unfold RootOutcome.rejected
  rw [h]
  exact hnot

section Step

variable {calm : Bool} {s : σ}

/-- One `open`. -/
theorem open_step (hroot : Contract root base Inv) (clock : Clock) (hInv : Inv calm s) :
    RootStep base Inv calm s .open (rootCall root ⟨s, clock⟩ .open).1
      (rootCall root ⟨s, clock⟩ .open).2.stage := by
  simp only [rootCall]
  by_cases hstate : (base s).state = .kUnopened
  · obtain ⟨hrows, hresult⟩ := hroot.opened clock hInv hstate
    generalize root.open clock s = call at hrows hresult ⊢
    obtain ⟨result, s', clock'⟩ := call
    cases result with
    | ok u =>
      refine ⟨?_, hstate ▸ .openOk, hresult.2.1, hrows, ?_⟩
      · simpa [RootOutcome.exception?] using hresult.1
      · exact fun h => absurd h (RootOutcome.not_rejected_of_none rfl)
    | error e =>
      obtain ⟨hinv, hclosed, hnot⟩ := hresult
      refine ⟨?_, hstate ▸ .openFails hnot, ?_, hrows, ?_⟩
      · simpa [RootOutcome.exception?] using hinv
      · simp only [hstate]; exact hclosed
      · exact fun h => absurd h (RootOutcome.not_rejected_of_some rfl hnot)
  · obtain ⟨e, hcode, hcall⟩ := hroot.openRejected clock hstate
    rw [hcall]
    refine ⟨?_, .openTwice hstate hcode, ?_, rfl, fun _ => rfl⟩
    · simpa [RootOutcome.exception?] using hroot.weaken hInv
    · generalize (base s).state = state at hstate ⊢
      cases state with
      | kUnopened => exact absurd rfl hstate
      | kOpen | kEof | kClosed => rfl

/-- One `getNext`. -/
theorem getNext_step (hroot : Contract root base Inv) (clock : Clock) (hInv : Inv calm s)
    (row : Row) :
    RootStep base Inv calm s (.getNext row) (rootCall root ⟨s, clock⟩ (.getNext row)).1
      (rootCall root ⟨s, clock⟩ (.getNext row)).2.stage := by
  simp only [rootCall]
  rcases hstate : (base s).state with _ | _ | _ | _
  · obtain ⟨e, hcode, hcall⟩ := hroot.nextRejected clock row (.inl hstate)
    rw [hcall]
    refine ⟨?_, .notOpen row (.inl hstate) hcode, rfl, rfl, fun _ => rfl⟩
    simpa [RootOutcome.exception?] using hroot.weaken hInv
  · obtain ⟨-, hresult⟩ := hroot.next clock row hInv hstate
    generalize root.getNext clock s row = call at hresult ⊢
    obtain ⟨result, output, s', clock'⟩ := call
    cases result with
    | error e =>
      obtain ⟨hinv, hopen, hrows, rfl, hnot⟩ := hresult
      refine ⟨?_, hstate ▸ .getNextFails _ hnot, ?_, hrows, ?_⟩
      · simpa [RootOutcome.exception?] using hinv
      · simp only [hstate]; exact hopen
      · exact fun h => absurd h (RootOutcome.not_rejected_of_some rfl hnot)
    | ok state =>
      cases state with
      | kEof =>
        obtain ⟨hinv, heof, hrows, rfl⟩ := hresult
        refine ⟨?_, hstate ▸ .eof _, heof, hrows, ?_⟩
        · simpa [RootOutcome.exception?] using hinv
        · exact fun h => absurd h (RootOutcome.not_rejected_of_none rfl)
      | kAdvanced =>
        obtain ⟨hinv, hopen, hrows⟩ := hresult
        refine ⟨?_, hstate ▸ .advanced _ _, ?_, hrows, ?_⟩
        · simpa [RootOutcome.exception?] using hinv
        · simp only [hstate]; exact hopen
        · exact fun h => absurd h (RootOutcome.not_rejected_of_none rfl)
  · obtain ⟨e, hcode, hcall⟩ := hroot.nextRejected clock row (.inr hstate)
    rw [hcall]
    refine ⟨?_, .notOpen row (.inr hstate) hcode, rfl, rfl, fun _ => rfl⟩
    simpa [RootOutcome.exception?] using hroot.weaken hInv
  · obtain ⟨s', hcall, hinv, heof, hrows⟩ := hroot.nextAtEof clock row hInv hstate
    rw [hcall]
    refine ⟨?_, hstate ▸ .eofAgain row, heof, hrows, ?_⟩
    · simpa [RootOutcome.exception?] using hinv
    · exact fun h => absurd h (RootOutcome.not_rejected_of_none rfl)

/-- One `close`. -/
theorem close_step (hroot : Contract root base Inv) (clock : Clock) (hInv : Inv calm s) :
    RootStep base Inv calm s .close (rootCall root ⟨s, clock⟩ .close).1
      (rootCall root ⟨s, clock⟩ .close).2.stage := by
  obtain ⟨hinv, hclosed, hrows, -⟩ := hroot.closed hInv
  refine ⟨?_, .closed _, ?_, hrows, ?_⟩
  · simpa [rootCall, RootOutcome.exception?] using hinv
  · simp only [rootCall]
    generalize (base s).state = state
    cases state <;> exact hclosed
  · exact fun h => absurd h (RootOutcome.not_rejected_of_none rfl)

end Step

/-- **The step lemma.**  One call on a root in any state. -/
theorem rootCall_step (hroot : Contract root base Inv) {calm : Bool} (session : Session σ)
    (hInv : Inv calm session.stage) (call : RootCall) :
    RootStep base Inv calm session.stage call (rootCall root session call).1
      (rootCall root session call).2.stage := by
  obtain ⟨s, clock⟩ := session
  cases call with
  | «open» => exact open_step hroot clock hInv
  | getNext row => exact getNext_step hroot clock hInv row
  | close => exact close_step hroot clock hInv

/-- **The run lemma.**  Any finite sequence of calls, from a state the invariant holds in. -/
theorem rootCalls_inv (hroot : Contract root base Inv) :
    ∀ (calls : List RootCall) {calm : Bool} (session : Session σ), Inv calm session.stage →
    let run := rootCalls root session calls
    Inv (calm && run.1.all (·.exception?.isNone)) run.2.stage ∧
      (base run.2.stage).state = run.1.foldl LifecycleState.after (base session.stage).state ∧
      (base run.2.stage).stats.rowsOut =
        (base session.stage).stats.rowsOut + run.1.countP (·.advanced) := by
  intro calls
  induction calls with
  | nil => intro calm session hInv; exact ⟨by simpa [rootCalls] using hInv, rfl, rfl⟩
  | cons call calls ih =>
    intro calm session hInv
    have hstep := rootCall_step hroot session hInv call
    obtain ⟨hinv, hstate, hrows⟩ := ih (rootCall root session call).2 hstep.inv
    refine ⟨?_, ?_, ?_⟩
    · simpa [rootCalls, Bool.and_assoc] using hinv
    · simp only [rootCalls, List.foldl_cons, ← hstep.state]
      exact hstate
    · simp only [rootCalls, List.countP_cons]
      rw [hrows, hstep.rowsOut]
      cases (rootCall root session call).1.advanced with
      | false => simp
      | true => simp only [Bool.toNat_true, if_true]; omega

end Calls

end QueryLume
