/-
  What the rows and the exceptions of a stage satisfy, in every state the stage can get into.

  `Reachable` collects those states: any calls, in any order, with any clock and any row variable,
  also after exceptions.  A parent reaches its child through such calls only, so a stage inside a
  running plan is never in any other state (`reachable_within`).

  * `Yields` — the contract: calls keep an invariant, every delivered row satisfies `P`, every
    exception satisfies `E`.
  * `HooksYield` — what a stage class shows about its hooks, given the contract of its child.
  * `HooksYield.yields` — the shared wrapper turns the second into the first.

  The contract is a parameter: widths of rows and the absence of undefined accesses
  (`Query/Safety.lean`) and the classes of exceptions (`Query/RuntimeErrors.lean`) are instances of
  `P` and `E`.  For a blocking stage the load-bearing part is `BufferInv`: rows before `nextIndex`
  have been moved out, so only the rest of the buffer is known to satisfy `P`.
-/
import QueryLume.Physical.Refinement

namespace QueryLume

open StdAlgorithms

/-! ## Reachable states

  A stage object has no other states than those that calls lead to.  That is an invariant itself,
  and the only one that is known of a stage about which nothing else is known. -/

section Contract

variable {σ : Type}

/-- The states of a stage, from `init` on, under any calls. -/
inductive Reachable (iterator : PlanStage σ) (init : σ) : σ → Prop where
  | init : Reachable iterator init init
  | opened {s : σ} (clock : Clock) :
      Reachable iterator init s → Reachable iterator init (iterator.open clock s).stage
  | pulled {s : σ} (clock : Clock) (row : Row) :
      Reachable iterator init s → Reachable iterator init (iterator.getNext clock s row).stage
  | closed {s : σ} : Reachable iterator init s → Reachable iterator init (iterator.close s)

/-! ## The contract

  Every row a stage delivers satisfies `P` and every exception it throws satisfies `E`, besides the
  errors of the lifecycle checks.  The invariant of its states is a parameter. -/

/-- What an `open()` leaves behind. -/
structure OpenYields (Inv : σ → Prop) (E : Exception → Prop) (call : OpenCall σ) : Prop where
  inv : Inv call.stage
  raises : ∀ e, call.result = .error e → E e

/-- What a `getNext()` leaves behind. -/
structure NextYields (Inv : σ → Prop) (P : Row → Prop) (E : Exception → Prop) (call : NextCall σ) :
    Prop where
  inv : Inv call.stage
  row : call.result = .ok .kAdvanced → P call.output
  raises : ∀ e, call.result = .error e → E e

/-- Every row the stage delivers satisfies `P`, every exception it throws `E`. -/
structure Yields (iterator : PlanStage σ) (Inv : σ → Prop) (P : Row → Prop) (E : Exception → Prop) :
    Prop where
  opened : ∀ clock {s}, Inv s → OpenYields Inv E (iterator.open clock s)
  pulled : ∀ clock {s} row, Inv s → NextYields Inv P E (iterator.getNext clock s row)
  closed : ∀ {s}, Inv s → Inv (iterator.close s)

variable {iterator : PlanStage σ} {Inv : σ → Prop} {P : Row → Prop} {E : Exception → Prop}

/-- The run lemma: the invariant holds in every reachable state. -/
theorem Yields.reachable (h : Yields iterator Inv P E) {init s : σ}
    (hs : Reachable iterator init s) (hinit : Inv init) : Inv s := by
  induction hs with
  | init => exact hinit
  | opened clock _ ih => exact (h.opened clock ih).inv
  | pulled clock row _ ih => exact (h.pulled clock row ih).inv
  | closed _ ih => exact h.closed ih

/-- Being reachable is an invariant itself. -/
theorem reachable_yields (iterator : PlanStage σ) (init : σ) :
    Yields iterator (Reachable iterator init) (fun _ => True) (fun _ => True) where
  opened clock _ hs := ⟨hs.opened clock, fun _ _ => trivial⟩
  pulled clock _ row hs := ⟨hs.pulled clock row, fun _ => trivial, fun _ _ => trivial⟩
  closed hs := hs.closed

end Contract

/-! ## From hooks to the contract

  As for the other contracts, the wrapper is dealt with once.  A stage that has not been opened has
  nothing to give out yet, hence the two invariants. -/

section Hooks

variable {F : Type}

/-- What the hooks of a stage class have to guarantee; `J true` is the invariant of the members
    before the stage has been opened, `J false` from then on. -/
structure HooksYield (hooks : StageHooks F) (J : Bool → F → Prop) (P : Row → Prop)
    (E : Exception → Prop) : Prop where
  onOpen : ∀ clock (this : Protected F), J true this.members →
    let call := hooks.onOpen clock this
    match call.result with
    | .ok () => J false call.stage.members
    | .error e => J false (hooks.onClose call.stage.members) ∧ E e
  onGetNext : ∀ clock (this : Protected F) output, J false this.members →
    NextYields (fun p : Protected F => J false p.members) P E (hooks.onGetNext clock this output)
  onClose : ∀ {fresh members}, J fresh members → J false (hooks.onClose members)

/-- The invariant of a stage object, in terms of its members. -/
def MembersInv (J : Bool → F → Prop) (this : StageObject F) : Prop :=
  J (decide (this.base.state = .kUnopened)) this.members

variable {hooks : StageHooks F} {J : Bool → F → Prop} {P : Row → Prop} {E : Exception → Prop}

/-- Once opened, a stage keeps the invariant of an opened one. -/
theorem membersInv_of_ne {this : StageObject F} (hstate : this.base.state ≠ .kUnopened) :
    MembersInv J this ↔ J false this.members := by
  rw [MembersInv, decide_eq_false hstate]

/-- An admitted `open()` that throws runs `onClose`, so the invariant is asked of the members
    after that. -/
theorem HooksYield.openYields (hhooks : HooksYield hooks J P E)
    (hlifecycle : ∀ e : Exception, e.code = some .kInvalidStageLifecycle → E e) (clock : Clock)
    {this : StageObject F} (hInv : MembersInv J this) :
    OpenYields (MembersInv J) E (hooks.planStage.open clock this) := by
  by_cases hstate : this.base.state = .kUnopened
  · have hcall := hhooks.onOpen clock.tick
      { stats := { this.base.stats with openCalls := this.base.stats.openCalls + 1 }
        members := this.members } (by rwa [MembersInv, decide_eq_true hstate] at hInv)
    obtain ⟨micros, hok, herr⟩ := PlanStageBase.open_admitted hooks clock hstate
    unfold PlanStageBase.openHook at hok herr
    simp only at hok herr hcall
    generalize hooks.onOpen clock.tick
      { stats := { this.base.stats with openCalls := this.base.stats.openCalls + 1 }
        members := this.members } = call at hok herr hcall
    obtain ⟨result, ⟨stats, members⟩, clock'⟩ := call
    cases result with
    | ok u =>
      simp only [StageHooks.planStage, hok u rfl]
      have hnext : J false members := hcall
      exact ⟨hnext, fun e he => (by cases he)⟩
    | error e =>
      simp only [StageHooks.planStage, herr e rfl]
      obtain ⟨hclosed, hE⟩ := hcall
      refine ⟨hclosed, fun e' he => ?_⟩
      rw [← Except.error.inj he]
      exact hE
  · rw [show hooks.planStage.open clock this = _ from PlanStageBase.open_rejected hstate]
    refine ⟨hInv, fun e he => hlifecycle e ?_⟩
    rw [← Except.error.inj he]
    rfl

/-- A rejected `getNext()` throws a lifecycle error and changes nothing; an admitted one is its
    hook. -/
theorem HooksYield.nextYields (hhooks : HooksYield hooks J P E)
    (hlifecycle : ∀ e : Exception, e.code = some .kInvalidStageLifecycle → E e) (clock : Clock)
    (row : Row) {this : StageObject F} (hInv : MembersInv J this) :
    NextYields (MembersInv J) P E (hooks.planStage.getNext clock this row) := by
  have hrejected : this.base.state = .kUnopened ∨ this.base.state = .kClosed →
      NextYields (MembersInv J) P E (hooks.planStage.getNext clock this row) := by
    intro hstate
    rw [show hooks.planStage.getNext clock this row = _ from PlanStageBase.getNext_rejected hstate]
    refine ⟨hInv, fun h => (by cases h), fun e he => hlifecycle e ?_⟩
    rw [← Except.error.inj he]
    rfl
  rcases hstate : this.base.state with _ | _ | _ | _
  · exact hrejected (.inl hstate)
  · have hne : this.base.state ≠ .kUnopened := by rw [hstate]; decide
    have hcall := hhooks.onGetNext clock.tick
      { stats := { this.base.stats with getNextCalls := this.base.stats.getNextCalls + 1 }
        members := this.members } row ((membersInv_of_ne hne).mp hInv)
    obtain ⟨micros, herr, hok⟩ := PlanStageBase.getNext_admitted hooks clock row hstate
    unfold PlanStageBase.getNextHook at herr hok
    generalize hooks.onGetNext clock.tick
      { stats := { this.base.stats with getNextCalls := this.base.stats.getNextCalls + 1 }
        members := this.members } row = call at herr hok hcall
    obtain ⟨result, output, ⟨stats, members⟩, clock'⟩ := call
    obtain ⟨hnext, hrow, hraises⟩ := hcall
    cases result with
    | error e =>
      simp only [StageHooks.planStage, herr e rfl]
      refine ⟨?_, fun h => (by cases h), hraises⟩
      have hopen : LifecycleState.kOpen ≠ .kUnopened := by decide
      simp only [MembersInv, hstate, decide_eq_false hopen]
      exact hnext
    | ok state =>
      simp only [StageHooks.planStage, hok state rfl]
      refine ⟨?_, hrow, fun e he => (by cases he)⟩
      have hafter : (if state = .kEof then .kEof else .kOpen) ≠ LifecycleState.kUnopened := by
        split
        · decide
        · decide
      simp only [MembersInv, decide_eq_false hafter]
      exact hnext
  · exact hrejected (.inr hstate)
  · rw [show hooks.planStage.getNext clock this row = _ from PlanStageBase.getNext_eof hstate]
    exact ⟨hInv, fun h => (by cases h), fun e he => (by cases he)⟩

/-- Closing is total, and it makes an unopened stage a closed one. -/
theorem HooksYield.closeYields (hhooks : HooksYield hooks J P E) {this : StageObject F}
    (hInv : MembersInv J this) : MembersInv J (hooks.planStage.close this) := by
  simp only [StageHooks.planStage, PlanStageBase.close]
  split
  · exact hInv
  · have hclosed : J false (hooks.onClose this.members) := hhooks.onClose hInv
    exact hclosed

/-- **The wrapper.**  Hooks that keep their obligations make a stage that keeps its contract, whose
    only further exceptions are those of the lifecycle checks. -/
theorem HooksYield.yields (hhooks : HooksYield hooks J P E)
    (hlifecycle : ∀ e : Exception, e.code = some .kInvalidStageLifecycle → E e) :
    Yields hooks.planStage (MembersInv J) P E where
  opened clock _ hInv := hhooks.openYields hlifecycle clock hInv
  pulled clock _ row hInv := hhooks.nextYields hlifecycle clock row hInv
  closed hInv := hhooks.closeYields hInv

end Hooks

/-! ## The stage classes

  One lemma per class, from the contract of the child to that of the stage.  `P` is about rows as
  they come out, so for a projection the two differ. -/

section Parents

variable {σ Own : Type} {child : PlanStage σ} {CInv : σ → Prop} {P : Row → Prop}
  {E : Exception → Prop}

/-- The invariant of a streaming stage is that of its child. -/
def ChildInv (CInv : σ → Prop) : Bool → ParentStage Own σ → Prop :=
  fun _ members => CInv members.child

/-- Opening the child is all a streaming stage does when it is opened. -/
theorem openChild_yields (hchild : Yields child CInv P E) (clock : Clock)
    {this : Protected (ParentStage Own σ)} (hInv : CInv this.members.child) :
    match (openChild child clock this).result with
    | .ok () => CInv (openChild child clock this).stage.members.child
    | .error e => CInv (child.close (openChild child clock this).stage.members.child) ∧ E e := by
  obtain ⟨hnext, hraises⟩ := hchild.opened clock hInv
  simp only [openChild]
  generalize child.open clock this.members.child = call at hnext hraises ⊢
  obtain ⟨result, s, clock'⟩ := call
  cases result with
  | ok u => exact hnext
  | error e => exact ⟨hchild.closed hnext, hraises e rfl⟩

/-- A filter passes on rows of its child and throws what its predicate throws at such a row. -/
theorem FilterStage.hooksYield (hchild : Yields child CInv P E) (predicate : Expression)
    (htest : ∀ row e, P row → predicate.test row = .error e → E e) :
    HooksYield (FilterStage.hooks child predicate) (ChildInv CInv) P E where
  onOpen clock this hInv := openChild_yields hchild clock hInv
  onGetNext clock this output hInv := by
    let Q := fun loop : LoopCall σ StageStats =>
      CInv loop.stage ∧ (loop.result = .ok .kAdvanced → P loop.row) ∧
        ∀ e, loop.result = .error e → E e
    have hloop : Q (whileAdvanced child (body predicate) clock this.members.child this.stats {}) := by
      refine whileAdvanced_rule _ _ (I := fun _ s _ => CInv s) ?_ clock _ _ _ hInv
      intro clock s stats row hs
      obtain ⟨hnext, hrow, hraises⟩ := hchild.pulled clock row hs
      generalize child.getNext clock s row = call at hnext hrow hraises ⊢
      obtain ⟨result, candidate, s', clock'⟩ := call
      cases result with
      | error e => exact ⟨hnext, fun h => (by cases h), hraises⟩
      | ok state =>
        cases state with
        | kEof => exact ⟨hnext, fun h => (by cases h), fun e he => (by cases he)⟩
        | kAdvanced =>
          have hcandidate : P candidate := hrow rfl
          simp only [RoundOk, body]
          cases haccepted : predicate.test candidate with
          | error e =>
            refine ⟨hnext, fun h => (by cases h), fun e' he => ?_⟩
            rw [← Except.error.inj he]
            exact htest candidate e hcandidate haccepted
          | ok accepted =>
            cases accepted with
            | true => exact ⟨hnext, fun _ => hcandidate, fun e he => (by cases he)⟩
            | false => exact hnext
    simp only [FilterStage.hooks, FilterStage.onGetNext]
    generalize whileAdvanced child (body predicate) clock this.members.child this.stats {} = loop
      at hloop ⊢
    obtain ⟨hnext, hrow, hraises⟩ := hloop
    refine ⟨hnext, fun h => ?_, hraises⟩
    simp only at h ⊢
    rw [if_pos h]
    exact hrow h
  onClose hInv := hchild.closed hInv

/-- A projection makes rows of another shape, hence another `P`. -/
theorem ProjectStage.hooksYield {P' : Row → Prop} (hchild : Yields child CInv P E)
    (columnIndices : List Nat)
    (hproject : ∀ row projected, P row → project columnIndices row = .ok projected → P' projected)
    (hraise : ∀ row e, P row → project columnIndices row = .error e → E e) :
    HooksYield (ProjectStage.hooks child columnIndices) (ChildInv CInv) P' E where
  onOpen clock this hInv := openChild_yields hchild clock hInv
  onGetNext clock this output hInv := by
    obtain ⟨hnext, hrow, hraises⟩ := hchild.pulled clock {} hInv
    simp only [ProjectStage.hooks, ProjectStage.onGetNext]
    generalize child.getNext clock this.members.child {} = call at hnext hrow hraises ⊢
    obtain ⟨result, input, s, clock'⟩ := call
    cases result with
    | error e => exact ⟨hnext, fun h => (by cases h), hraises⟩
    | ok state =>
      cases state with
      | kEof => exact ⟨hnext, fun h => (by cases h), fun e he => (by cases he)⟩
      | kAdvanced =>
        have hinput : P input := hrow rfl
        cases hresult : project columnIndices input with
        | error e =>
          refine ⟨hnext, fun h => (by cases h), fun e' he => ?_⟩
          rw [← Except.error.inj he]
          exact hraise input e hinput hresult
        | ok projected =>
          exact ⟨hnext, fun _ => hproject input projected hinput hresult, fun e he => (by cases he)⟩
  onClose hInv := hchild.closed hInv

theorem LimitStage.hooksYield (hchild : Yields child CInv P E) (limit : Nat) :
    HooksYield (LimitStage.hooks child limit) (ChildInv CInv) P E where
  onOpen clock this hInv := openChild_yields hchild clock hInv
  onGetNext clock this output hInv := by
    simp only [LimitStage.hooks, LimitStage.onGetNext]
    by_cases hfull : limit ≤ this.members.own.emitted
    · rw [if_pos hfull]
      exact ⟨hInv, fun h => (by cases h), fun e he => (by cases he)⟩
    · rw [if_neg hfull]
      obtain ⟨hnext, hrow, hraises⟩ := hchild.pulled clock output hInv
      generalize child.getNext clock this.members.child output = call at hnext hrow hraises ⊢
      obtain ⟨result, row, s, clock'⟩ := call
      cases result with
      | error e => exact ⟨hnext, fun h => (by cases h), hraises⟩
      | ok state =>
        cases state with
        | kEof => exact ⟨hnext, fun h => (by cases h), fun e he => (by cases he)⟩
        | kAdvanced => exact ⟨hnext, fun _ => hrow rfl, fun e he => (by cases he)⟩
  onClose hInv := hchild.closed hInv

/-- A blocking stage: the child's invariant, and the rows that are still to be given out.  The rows
    before `nextIndex` have been moved out, so nothing is known about them. -/
structure BufferInv (CInv : σ → Prop) (P : Row → Prop) (fresh : Bool)
    (members : ParentStage RowBuffer σ) : Prop where
  child : CInv members.child
  empty : fresh = true → members.own.buffer = []
  rows : ∀ row ∈ members.own.buffer.drop members.own.nextIndex, P row

/-- A loop body fills the buffer with rows that satisfy `P`, and fails as `E` allows. -/
def FillsYield (fill : List Row → Row → Except Exception (List Row)) (P : Row → Prop)
    (E : Exception → Prop) : Prop :=
  ∀ buffer row, (∀ x ∈ row :: buffer, P x) →
    (∀ buffer', fill buffer row = .ok buffer' → ∀ x ∈ buffer', P x) ∧
    ∀ e, fill buffer row = .error e → E e

/-- How a drain loop leaves the child it called, the rows it has buffered and what it throws. -/
def DrainYields (CInv : σ → Prop) (P : Row → Prop) (E : Exception → Prop)
    (loop : LoopCall σ Drain) : Prop :=
  CInv loop.stage ∧ (∀ row ∈ loop.locals.buffer, P row) ∧ ∀ e, loop.result = .error e → E e

/-- **The drain loop.**  It buffers rows that satisfy `P`. -/
theorem drain_yields (hchild : Yields child CInv P E) {body : Drain → Row → Flow Drain}
    {fill : List Row → Row → Except Exception (List Row)} (hbody : FillsBy body fill)
    (hfill : FillsYield fill P E) {clock : Clock} {s : σ} {stats : StageStats} {buffer : List Row}
    (hopened : CInv s) (hbuffer : ∀ row ∈ buffer, P row) :
    DrainYields CInv P E (whileAdvanced child body clock s { stats, buffer } {}) := by
  refine whileAdvanced_rule _ _ (I := fun _ s (drain : Drain) => CInv s ∧ ∀ row ∈ drain.buffer, P row)
    ?_ _ _ _ _ ⟨hopened, hbuffer⟩
  rintro clock s ⟨stats, buffer⟩ row ⟨hs, hrows⟩
  obtain ⟨hnext, hrow, hraises⟩ := hchild.pulled clock row hs
  generalize child.getNext clock s row = call at hnext hrow hraises ⊢
  obtain ⟨result, pulled, s', clock'⟩ := call
  cases result with
  | error e => exact ⟨hnext, hrows, hraises⟩
  | ok state =>
    cases state with
    | kEof => exact ⟨hnext, hrows, fun e he => (by cases he)⟩
    | kAdvanced =>
      have hheld : ∀ x ∈ pulled :: buffer, P x := by
        intro x hx
        rcases List.mem_cons.mp hx with rfl | hx
        · exact hrow rfl
        · exact hrows x hx
      obtain ⟨hfilled, hfails⟩ := hfill buffer pulled hheld
      have hround := hbody ⟨stats, buffer⟩ pulled
      simp only at hround
      simp only [RoundOk]
      cases hresult : fill buffer pulled with
      | error e =>
        rw [hresult] at hround
        rw [show body ⟨stats, buffer⟩ pulled = _ from hround]
        refine ⟨hnext, hrows, fun e' he => ?_⟩
        rw [← Except.error.inj he]
        exact hfails e hresult
      | ok buffer' =>
        rw [hresult] at hround
        obtain ⟨left, hround⟩ := hround
        rw [hround]
        exact ⟨hnext, hfilled buffer' hresult⟩

/-- **The blocking stages.**  What holds of the rows that are buffered holds of the rows that are
    given out later, since sorting rearranges them. -/
theorem blocking_yields [StdLibrary] (hchild : Yields child CInv P E) {name : String}
    {body : Drain → Row → Flow Drain} {fill : List Row → Row → Except Exception (List Row)}
    {comparator : RowComparator} (hbody : FillsBy body fill) (hfill : FillsYield fill P E)
    (hcall : ∀ a b e, P a → P b → comparator.call a b = .error e → E e) :
    HooksYield (BlockingStage.hooks name child body comparator) (BufferInv CInv P) P E where
  onOpen clock this hInv := by
    obtain ⟨hbelow, hempty, -⟩ := hInv
    have hbuffer : this.members.own.buffer = [] := hempty rfl
    -- closing the members empties the buffer, whatever the loop has left in it
    have hclosed : ∀ {s : σ} (drain : Drain), CInv s →
        BufferInv CInv P false
          (BlockingStage.onClose child (BlockingStage.leave this s drain).members) := by
      intro s drain hs
      refine ⟨hchild.closed hs, fun _ => rfl, fun row hrow => ?_⟩
      rw [BlockingStage.onClose, List.drop_nil] at hrow
      cases hrow
    obtain ⟨hopened, hopenRaises⟩ := hchild.opened clock hbelow
    simp only [BlockingStage.hooks, BlockingStage.onOpen]
    generalize child.open clock this.members.child = opened at hopened hopenRaises ⊢
    obtain ⟨result, s, clock'⟩ := opened
    cases result with
    | error e => exact ⟨hclosed ⟨this.stats, []⟩ hopened, hopenRaises e rfl⟩
    | ok u =>
      have hloop : DrainYields CInv P E (whileAdvanced child body clock' s
          { stats := this.stats, buffer := this.members.own.buffer } {}) := by
        refine drain_yields hchild hbody hfill hopened fun row hrow => ?_
        rw [hbuffer] at hrow
        cases hrow
      simp only
      generalize whileAdvanced child body clock' s _ {} = loop at hloop ⊢
      obtain ⟨result, ⟨stats, buffer⟩, row, s', clock''⟩ := loop
      obtain ⟨hnext, hrows, hraises⟩ := hloop
      simp only [BlockingStage.sortDrained]
      cases result with
      | error e => exact ⟨hclosed _ hnext, hraises e rfl⟩
      | ok state =>
        simp only
        cases hsort : stdSort comparator.call buffer with
        | error e =>
          obtain ⟨a, ha, b, hb, hcmp⟩ := rearrange_error hsort
          exact ⟨hclosed _ hnext, hcall a b e (hrows a ha) (hrows b hb) hcmp⟩
        | ok sorted =>
          refine ⟨hnext, fun h => (by cases h), fun row hrow => ?_⟩
          exact hrows row (rearrange_mem hsort row (List.mem_of_mem_drop hrow))
  onGetNext clock this output hInv := by
    obtain ⟨hbelow, -, hrows⟩ := hInv
    simp only [BlockingStage.hooks, BlockingStage.onGetNext]
    cases hrow : this.members.own.buffer[this.members.own.nextIndex]? with
    | none =>
      exact ⟨⟨hbelow, fun h => (by cases h), hrows⟩, fun h => (by cases h), fun e he => (by cases he)⟩
    | some row =>
      obtain ⟨hlt, hget⟩ := List.getElem?_eq_some_iff.mp hrow
      have hdrop := List.drop_eq_getElem_cons hlt
      refine ⟨⟨hbelow, fun h => (by cases h), fun x hx => ?_⟩, fun _ => ?_, fun e he => (by cases he)⟩
      · -- the cell that was moved out is not among the rows still to come
        have hkept := List.drop_set_of_lt (l := this.members.own.buffer) (a := row.movedFrom)
          (Nat.lt_succ_self this.members.own.nextIndex)
        simp only [hkept] at hx
        refine hrows x ?_
        rw [hdrop]
        exact List.mem_cons_of_mem _ hx
      · refine hrows row ?_
        rw [hdrop, hget]
        exact List.mem_cons_self
  onClose := by
    intro fresh members hInv
    refine ⟨hchild.closed hInv.child, fun _ => rfl, fun row hrow => ?_⟩
    simp only [BlockingStage.hooks, BlockingStage.onClose, List.drop_nil] at hrow
    cases hrow

/-- A sort gives out rows of its child and throws what its comparator throws at two of them. -/
theorem SortStage.hooksYield [StdLibrary] (hchild : Yields child CInv P E)
    (comparator : RowComparator)
    (hcall : ∀ a b e, P a → P b → comparator.call a b = .error e → E e) :
    HooksYield (SortStage.hooks child comparator) (BufferInv CInv P) P E := by
  refine blocking_yields hchild SortStage.body_fillsBy (fun buffer row hheld => ⟨?_, ?_⟩) hcall
  · intro buffer' h x hx
    rw [← Except.ok.inj h] at hx
    exact hheld x ((BoundedHeap.mem_concat_row x).mp hx)
  · intro e h
    cases h

theorem TopKStage.hooksYield [StdLibrary] (hchild : Yields child CInv P E)
    (comparator : RowComparator) (k : Nat)
    (hcall : ∀ a b e, P a → P b → comparator.call a b = .error e → E e) :
    HooksYield (TopKStage.hooks child comparator k) (BufferInv CInv P) P E := by
  refine blocking_yields hchild (TopKStage.body_fillsBy comparator k)
    (fun buffer row hheld => ⟨?_, ?_⟩) hcall
  · intro buffer' h x hx
    exact hheld x (BoundedHeap.offer_mem h x hx)
  · intro e h
    obtain ⟨a, ha, b, hb, hcmp⟩ := BoundedHeap.offer_error h
    exact hcall a b e (hheld a ha) (hheld b hb) hcmp

end Parents

/-! ## The leaf -/

/-- A scan gives out the rows of its table and throws nothing. -/
theorem CollectionScanStage.hooksYield {table : Table} {P : Row → Prop} {E : Exception → Prop}
    (hrows : ∀ row ∈ table.rows, P row) :
    HooksYield (CollectionScanStage.hooks table) (fun _ _ => True) P E where
  onOpen _ _ _ := trivial
  onGetNext clock this output _ := by
    simp only [CollectionScanStage.hooks, CollectionScanStage.onGetNext]
    cases hrow : table.rows[this.members.nextIndex]? with
    | none => exact ⟨trivial, fun h => (by cases h), fun e he => (by cases he)⟩
    | some row =>
      exact ⟨trivial, fun _ => hrows row (List.mem_of_getElem? hrow), fun e he => (by cases he)⟩
  onClose _ := trivial

/-! ## The stages inside a plan

  A stage in the middle of a plan is called by its parent only, but it is called like any other:
  its object is always in a state that some calls lead to. -/

namespace PlanStageTree

/-- `s` is the object of the stage `sub` inside the objects `this` of a plan. -/
inductive Within : (tree : PlanStageTree) → tree.Object → (sub : PlanStageTree) → sub.Object → Prop
  where
  | root (tree : PlanStageTree) (this : tree.Object) : Within tree this tree this
  | filterStage {child : PlanStageTree} {predicate : Expression}
      {this : StageObject (FilterStage child.Object)} {sub : PlanStageTree} {s : sub.Object} :
      Within child this.members.child sub s → Within (.filterStage child predicate) this sub s
  | projectStage {child : PlanStageTree} {columnIndices : List Nat}
      {this : StageObject (ProjectStage child.Object)} {sub : PlanStageTree} {s : sub.Object} :
      Within child this.members.child sub s → Within (.projectStage child columnIndices) this sub s
  | sortStage {child : PlanStageTree} {comparator : RowComparator}
      {this : StageObject (SortStage child.Object)} {sub : PlanStageTree} {s : sub.Object} :
      Within child this.members.child sub s → Within (.sortStage child comparator) this sub s
  | limitStage {child : PlanStageTree} {limit : Nat}
      {this : StageObject (LimitStage child.Object)} {sub : PlanStageTree} {s : sub.Object} :
      Within child this.members.child sub s → Within (.limitStage child limit) this sub s
  | topKStage {child : PlanStageTree} {comparator : RowComparator} {k : Nat}
      {this : StageObject (TopKStage child.Object)} {sub : PlanStageTree} {s : sub.Object} :
      Within child this.members.child sub s → Within (.topKStage child comparator k) this sub s

variable [StdLibrary]

/-- A state of the stage that some calls lead to. -/
def Reached (tree : PlanStageTree) (this : tree.Object) : Prop :=
  Reachable tree.planStage tree.constructed this

/-- What holds of every stage without knowing anything about it. -/
theorem called (tree : PlanStageTree) :
    Yields tree.planStage tree.Reached (fun _ => True) (fun _ => True) :=
  reachable_yields tree.planStage tree.constructed

/-- **Only calls.**  Whatever happens to a plan, each of its stages has only ever been called. -/
theorem reachable_within {tree sub : PlanStageTree} {this : tree.Object} {s : sub.Object}
    (hwithin : Within tree this sub s) (hthis : tree.Reached this) : sub.Reached s := by
  induction hwithin with
  | root tree this => exact hthis
  | @filterStage child predicate _ _ _ _ ih =>
    have hhooks := FilterStage.hooksYield (called child) predicate fun _ _ _ _ => trivial
    have hchild := (hhooks.yields fun _ _ => trivial).reachable hthis Reachable.init
    exact ih hchild
  | @projectStage child columnIndices _ _ _ _ ih =>
    have hhooks : HooksYield (ProjectStage.hooks child.planStage columnIndices)
        (ChildInv child.Reached) (fun _ => True) (fun _ => True) :=
      ProjectStage.hooksYield (called child) columnIndices (fun _ _ _ _ => trivial)
        fun _ _ _ _ => trivial
    have hchild := (hhooks.yields fun _ _ => trivial).reachable hthis Reachable.init
    exact ih hchild
  | @sortStage child comparator _ _ _ _ ih =>
    have hhooks := SortStage.hooksYield (called child) comparator fun _ _ _ _ _ _ => trivial
    have hchild := (hhooks.yields fun _ _ => trivial).reachable hthis
      ⟨Reachable.init, fun _ => rfl, fun _ _ => trivial⟩
    exact ih hchild.child
  | @limitStage child limit _ _ _ _ ih =>
    have hhooks := LimitStage.hooksYield (called child) limit
    have hchild := (hhooks.yields fun _ _ => trivial).reachable hthis Reachable.init
    exact ih hchild
  | @topKStage child comparator k _ _ _ _ ih =>
    have hhooks := TopKStage.hooksYield (called child) comparator k fun _ _ _ _ _ _ => trivial
    have hchild := (hhooks.yields fun _ _ => trivial).reachable hthis
      ⟨Reachable.init, fun _ => rfl, fun _ _ => trivial⟩
    exact ih hchild.child

end PlanStageTree

end QueryLume
