/-
  One filter or a stack of them.

  A bound `$match` has three forms: the literal true, a bare comparison, a conjunction.  Each is told
  apart by no call from the stack of filters that test the predicates one above the other
  (`match_cascade`):

  * `filter_fused`     — a filter on a filter is a filter on both tests.  The inner loop of the stack
                         is followed up to the first row it accepts (`LoopSplit`), and then the outer
                         test decides as the second half of the conjunction does;
  * `filter_through`   — a filter that accepts everything is no filter at all;
  * the congruence of filters (`FilterStage.hooksAlike`) puts the two together, one predicate at a
    time.
-/
import QueryLume.BoundPlan
import QueryLume.Foundation.ReferenceAlgorithms
import QueryLume.Physical.Bisimulation

namespace QueryLume

/-! ## The calls of a filter

  What the three calls of a filter object do, in terms of its loop and of its child.  They are the
  inversion lemmas of the wrapper at the hooks of a filter, and what follows uses these and does
  not unfold the wrapper again. -/

/-- The state an open stage is in after a `getNext()` that ended like this. -/
def LifecycleState.afterNext : Except Exception StageState → LifecycleState
  | .ok .kEof => .kEof
  | _ => .kOpen

/-- Calls that end alike leave their stages in the same lifecycle state. -/
theorem EndsAlike.afterNext {x y : Except Exception StageState} (h : EndsAlike x y) :
    LifecycleState.afterNext x = LifecycleState.afterNext y := by
  cases h <;> rfl

namespace FilterStage

section Calls

variable {σ : Type} (child : PlanStage σ) (predicate : Expression) {this : StageObject (FilterStage σ)}

/-- An admitted `open()` opens the child, and closes it again when that fails. -/
theorem open_fresh (clock : Clock) (h : this.base.state = .kUnopened) :
    let opened := (hooks child predicate).planStage.open clock this
    let call := child.open clock.tick this.members.child
    (∀ e, call.result = .error e → opened.result = .error e ∧ opened.stage.base.state = .kClosed ∧
      opened.stage.members.child = child.close call.stage) ∧
    (call.result = .ok () → opened.result = .ok () ∧ opened.stage.base.state = .kOpen ∧
      opened.stage.members.child = call.stage) := by
  obtain ⟨micros, hok, herr⟩ := PlanStageBase.open_admitted (hooks child predicate) clock h
  constructor
  · intro e he
    have heq := herr e he
    simp only [StageHooks.planStage, heq]
    exact ⟨trivial, trivial, rfl⟩
  · intro hu
    have heq := hok () hu
    simp only [StageHooks.planStage, heq]
    exact ⟨trivial, trivial, rfl⟩

/-- An admitted `getNext()` is one run of the loop. -/
theorem getNext_open (clock : Clock) (row : Row) (h : this.base.state = .kOpen) :
    ∃ stats, let next := (hooks child predicate).planStage.getNext clock this row
      let loop := whileAdvanced child (body predicate) clock.tick this.members.child stats {}
      next.result = loop.result ∧ (loop.result = .ok .kAdvanced → next.output = loop.row) ∧
        next.stage.members.child = loop.stage ∧
        next.stage.base.state = .afterNext loop.result := by
  obtain ⟨micros, herr, hok⟩ := PlanStageBase.getNext_admitted (hooks child predicate) clock row h
  refine ⟨{ this.base.stats with getNextCalls := this.base.stats.getNextCalls + 1 }, ?_⟩
  simp only [PlanStageBase.getNextHook, hooks, onGetNext] at herr hok
  simp only [StageHooks.planStage]
  generalize whileAdvanced child (body predicate) clock.tick this.members.child _ {} = loop
    at herr hok ⊢
  cases hend : loop.result with
  | error e =>
    have heq := herr e hend
    rw [show PlanStageBase.getNext (hooks child predicate) clock this row = _ from heq]
    exact ⟨rfl, (fun h => by cases h), rfl, h⟩
  | ok state =>
    have heq := hok state hend
    rw [show PlanStageBase.getNext (hooks child predicate) clock this row = _ from heq]
    refine ⟨rfl, fun hadvanced => if_pos (hend.trans hadvanced), rfl, ?_⟩
    cases state <;> rfl

/-- A filter that is closed for the first time closes its child. -/
theorem close_child (h : this.base.state ≠ .kClosed) :
    let closed := (hooks child predicate).planStage.close this
    closed.base.state = .kClosed ∧ closed.members.child = child.close this.members.child := by
  simp only [StageHooks.planStage, PlanStageBase.close, if_neg h]
  exact ⟨trivial, rfl⟩

theorem close_closed (h : this.base.state = .kClosed) :
    (hooks child predicate).planStage.close this = this := by
  simp only [StageHooks.planStage, PlanStageBase.close, if_pos h]

end Calls

end FilterStage

/-! ## A filter on a filter

  Two loops against one.  The relation is `Fused`: the two filters of the stack and the one filter
  are in the same lifecycle state, and the children are related.  The counters are not compared;
  the outer filter of the stack counts only the rows that have passed the inner one. -/

/-- One test, and where it accepts the other. -/
def bothTests (first second : Except Exception Bool) : Except Exception Bool :=
  match first with
  | .error e => .error e
  | .ok true => second
  | .ok false => .ok false

section Fusion

variable {σ τ : Type} {child : PlanStage σ} {child' : PlanStage τ} {R : σ → τ → Prop}
  {p q r : Expression}

/-- Where the loop with both tests is when the loop with the first test alone has ended: it has
    ended too, or it is going on past a row the second test turned down. -/
inductive LoopSplit (child' : PlanStage τ) (R : σ → τ → Prop) (q r : Expression)
    (inner : LoopCall σ StageStats) (single : LoopCall τ StageStats) : Prop where
  | ended (result : EndsAlike inner.result single.result) (stopped : inner.result ≠ .ok .kAdvanced)
      (stage : R inner.stage single.stage)
  | accepted (advanced : inner.result = .ok .kAdvanced) (test : q.test inner.row = .ok true)
      (result : single.result = .ok .kAdvanced) (row : single.row = inner.row)
      (stage : R inner.stage single.stage)
  | failed (e : Exception) (advanced : inner.result = .ok .kAdvanced)
      (test : q.test inner.row = .error e) (result : single.result = .error e)
      (stage : R inner.stage single.stage)
  | rejected (fuel : Nat) (clock : Clock) (t : τ) (stats : StageStats) (row : Row)
      (advanced : inner.result = .ok .kAdvanced) (test : q.test inner.row = .ok false)
      (enough : child'.bound t < fuel) (stage : R inner.stage t)
      (continues : single = pullRounds child' (FilterStage.body r) fuel clock t stats row)

/-- **Splitting the loop**, by induction on the rounds of the inner loop: as long as the first
    test turns rows down, both loops go round together. -/
theorem pullRounds_split (hchild : Bisimulation child child' R)
    (htest : ∀ row, r.test row = bothTests (p.test row) (q.test row)) :
    ∀ fuel fuel' clock clock' s t stats stats' row row', child.bound s < fuel →
      child'.bound t < fuel' → R s t →
      LoopSplit child' R q r (pullRounds child (FilterStage.body p) fuel clock s stats row)
        (pullRounds child' (FilterStage.body r) fuel' clock' t stats' row') := by
  intro fuel
  induction fuel with
  | zero =>
    intro fuel' clock clock' s t stats stats' row row' hlt
    exact absurd hlt (Nat.not_lt_zero _)
  | succ fuel ih =>
    intro fuel' clock clock' s t stats stats' row row' hlt hlt' hR
    obtain _ | fuel' := fuel'
    · exact absurd hlt' (Nat.not_lt_zero _)
    have hnext := hchild.getNext clock clock' row row' hR
    have hbound := child.bound_getNext clock s row
    have hbound' := child'.bound_getNext clock' t row'
    unfold pullRounds
    generalize child.getNext clock s row = call at hnext hbound
    generalize child'.getNext clock' t row' = call' at hnext hbound'
    obtain ⟨result, output, s', clock⟩ := call
    obtain ⟨result', output', t', clock'⟩ := call'
    obtain ⟨hresult, houtput, hstage⟩ := hnext
    simp only at hresult houtput hstage hbound hbound' ⊢
    cases hresult with
    | error e => exact .ended (.error e) (fun h => by cases h) hstage
    | rejected left right => exact .ended (.rejected left right) (fun h => by cases h) hstage
    | ok state =>
      cases state with
      | kEof => exact .ended (.ok _) (fun h => by cases h) hstage
      | kAdvanced =>
        obtain rfl := houtput rfl
        have hfuel : child.bound s' < fuel := by have := hbound rfl; omega
        have hfuel' : child'.bound t' < fuel' := by have := hbound' rfl; omega
        simp only [FilterStage.body, htest output]
        cases hp : p.test output with
        | error e => exact .ended (.error e) (fun h => by cases h) hstage
        | ok first =>
          cases first with
          | false =>
            -- turned down by the first test: both loops go on
            exact ih fuel' clock clock' s' t' _ _ output output hfuel hfuel' hstage
          | true =>
            simp only [bothTests]
            cases hq : q.test output with
            | error e => exact .failed e rfl hq rfl hstage
            | ok second =>
              cases second with
              | true => exact .accepted rfl hq rfl rfl hstage
              | false => exact .rejected fuel' clock' t' _ output rfl hq hfuel' hstage rfl

/-- The objects of a filter on a filter, and of one filter: all three are in the same lifecycle
    state, over related children. -/
structure Fused (R : σ → τ → Prop) (stack : StageObject (FilterStage (StageObject (FilterStage σ))))
    (single : StageObject (FilterStage τ)) : Prop where
  outer : stack.base.state = single.base.state
  inner : stack.members.child.base.state = single.base.state
  child : R stack.members.child.members.child single.members.child

/-- How the two loops of the stack end, against the one loop. -/
structure FusedLoop (R : σ → τ → Prop) (outer : LoopCall (StageObject (FilterStage σ)) StageStats)
    (single : LoopCall τ StageStats) : Prop where
  result : EndsAlike outer.result single.result
  row : outer.result = .ok .kAdvanced → outer.row = single.row
  inner : outer.stage.base.state = .afterNext single.result
  stage : R outer.stage.members.child single.stage

/-- **Two loops are one**, by induction on the rounds of the outer loop. -/
theorem pullRounds_fused (hchild : Bisimulation child child' R)
    (htest : ∀ row, r.test row = bothTests (p.test row) (q.test row)) :
    ∀ fuel fuel' clock clock' (inner : StageObject (FilterStage σ)) t stats stats' row row',
      (FilterStage.hooks child p).planStage.bound inner < fuel → child'.bound t < fuel' →
      inner.base.state = .kOpen → R inner.members.child t →
      FusedLoop R
        (pullRounds (FilterStage.hooks child p).planStage (FilterStage.body q) fuel clock inner stats
          row)
        (pullRounds child' (FilterStage.body r) fuel' clock' t stats' row') := by
  intro fuel
  induction fuel with
  | zero =>
    intro fuel' clock clock' inner t stats stats' row row' hlt
    exact absurd hlt (Nat.not_lt_zero _)
  | succ fuel ih =>
    intro fuel' clock clock' inner t stats stats' row row' hlt hlt' hopen hR
    have hbound := (FilterStage.hooks child p).planStage.bound_getNext clock inner row
    obtain ⟨innerStats, hresult, houtput, hstage, hstate⟩ :=
      FilterStage.getNext_open child p clock row hopen
    have hsplit : LoopSplit child' R q r
        (whileAdvanced child (FilterStage.body p) clock.tick inner.members.child innerStats {})
        (pullRounds child' (FilterStage.body r) fuel' clock' t stats' row') :=
      pullRounds_split hchild htest _ fuel' clock.tick clock' inner.members.child t innerStats stats'
        {} row' (Nat.lt_succ_self _) hlt' hR
    generalize pullRounds child' (FilterStage.body r) fuel' clock' t stats' row' = single at hsplit
    rw [pullRounds]
    generalize whileAdvanced child (FilterStage.body p) clock.tick inner.members.child innerStats {} =
      loop at hsplit hresult houtput hstage hstate
    generalize (FilterStage.hooks child p).planStage.getNext clock inner row = next
      at hbound hresult houtput hstage hstate
    obtain ⟨result, output, inner', clock⟩ := next
    simp only at hbound hresult houtput hstage hstate ⊢
    subst hresult
    cases hsplit with
    | ended hends stopped hrel =>
      rw [hends.afterNext] at hstate
      cases hend : loop.result with
      | error e =>
        rw [hend] at hends
        exact ⟨hends, (fun h => by cases h), hstate, hstage ▸ hrel⟩
      | ok state =>
        rw [hend] at hends
        cases state with
        | kAdvanced => exact absurd hend stopped
        | kEof => exact ⟨hends, (fun h => by cases h), hstate, hstage ▸ hrel⟩
    | accepted advanced test hsingle hrow hrel =>
      obtain rfl := houtput advanced
      rw [advanced] at hstate
      simp only [advanced, FilterStage.body, test]
      refine ⟨by rw [hsingle]; exact .ok _, fun _ => hrow.symm, ?_, hstage ▸ hrel⟩
      rw [hstate, hsingle]
    | failed e advanced test hsingle hrel =>
      obtain rfl := houtput advanced
      rw [advanced] at hstate
      simp only [advanced, FilterStage.body, test]
      refine ⟨by rw [hsingle]; exact .error e, (fun h => by cases h), ?_, hstage ▸ hrel⟩
      rw [hstate, hsingle]
      rfl
    | rejected fuel'' clock'' t' stats'' row'' advanced test enough hrel continues =>
      obtain rfl := houtput advanced
      rw [advanced] at hstate
      simp only [advanced, FilterStage.body, test]
      subst continues
      have hfuel : (FilterStage.hooks child p).planStage.bound inner' < fuel := by
        have := hbound advanced
        omega
      exact ih fuel'' clock clock'' inner' t' _ stats'' _ row'' hfuel enough hstate (hstage ▸ hrel)

/-- Opening the stack opens both filters and the child, opening the one filter the one and the
    child. -/
theorem Fused.open_alike (hchild : Bisimulation child child' R) (clock clock' : Clock)
    {stack : StageObject (FilterStage (StageObject (FilterStage σ)))}
    {single : StageObject (FilterStage τ)} (h : Fused R stack single) :
    OpenAlike (Fused R)
      ((FilterStage.hooks (FilterStage.hooks child p).planStage q).planStage.open clock stack)
      ((FilterStage.hooks child' r).planStage.open clock' single) := by
  obtain ⟨houter, hinner, hR⟩ := h
  by_cases hfresh : single.base.state = .kUnopened
  · obtain ⟨hfail, hopen⟩ := FilterStage.open_fresh child' r clock' hfresh
    obtain ⟨hinnerFail, hinnerOpen⟩ := FilterStage.open_fresh child p
      clock.tick (hinner.trans hfresh)
    obtain ⟨houterFail, houterOpen⟩ := FilterStage.open_fresh
      (FilterStage.hooks child p).planStage q clock (houter.trans hfresh)
    have hcall := hchild.open clock.tick.tick clock'.tick hR
    obtain ⟨hresult, hstage⟩ := hcall
    generalize child.open clock.tick.tick stack.members.child.members.child = call
      at hresult hstage hinnerFail hinnerOpen
    generalize child'.open clock'.tick single.members.child = call' at hresult hstage hfail hopen
    generalize (FilterStage.hooks child p).planStage.open clock.tick stack.members.child = innerCall
      at hinnerFail hinnerOpen houterFail houterOpen
    generalize (FilterStage.hooks (FilterStage.hooks child p).planStage q).planStage.open clock stack =
      outerCall at houterFail houterOpen ⊢
    generalize (FilterStage.hooks child' r).planStage.open clock' single = singleCall
      at hfail hopen ⊢
    cases hend : call.result with
    | error e =>
      rw [hend] at hresult
      obtain ⟨e', hend'⟩ := hresult.error_left
      rw [hend'] at hresult
      obtain ⟨hinnerResult, hinnerState, hinnerChild⟩ := hinnerFail e hend
      obtain ⟨houterResult, houterState, houterChild⟩ := houterFail e hinnerResult
      obtain ⟨hsingleResult, hsingleState, hsingleChild⟩ := hfail e' hend'
      -- closing the inner filter again does nothing
      rw [FilterStage.close_closed child p hinnerState] at houterChild
      refine ⟨by rw [houterResult, hsingleResult]; exact hresult, ?_, ?_, ?_⟩
      · rw [houterState, hsingleState]
      · rw [houterChild, hinnerState, hsingleState]
      · rw [houterChild, hinnerChild, hsingleChild]
        exact hchild.close hstage
    | ok u =>
      rw [hend] at hresult
      obtain ⟨hinnerResult, hinnerState, hinnerChild⟩ := hinnerOpen hend
      obtain ⟨houterResult, houterState, houterChild⟩ := houterOpen hinnerResult
      obtain ⟨hsingleResult, hsingleState, hsingleChild⟩ := hopen hresult.ok_left
      refine ⟨by rw [houterResult, hsingleResult]; exact .ok (), ?_, ?_, ?_⟩
      · rw [houterState, hsingleState]
      · rw [houterChild, hinnerState, hsingleState]
      · rw [houterChild, hinnerChild, hsingleChild]
        exact hstage
  · simp only [StageHooks.planStage]
    rw [PlanStageBase.open_rejected hfresh, PlanStageBase.open_rejected (houter ▸ hfresh)]
    exact ⟨.rejected rfl rfl, houter, hinner, hR⟩

/-- A pull of the stack is a pull of the one filter; the case is decided by the common lifecycle
    state. -/
theorem Fused.getNext_alike (hchild : Bisimulation child child' R)
    (htest : ∀ row, r.test row = bothTests (p.test row) (q.test row)) (clock clock' : Clock)
    (row row' : Row) {stack : StageObject (FilterStage (StageObject (FilterStage σ)))}
    {single : StageObject (FilterStage τ)} (h : Fused R stack single) :
    NextAlike (Fused R)
      ((FilterStage.hooks (FilterStage.hooks child p).planStage q).planStage.getNext clock stack row)
      ((FilterStage.hooks child' r).planStage.getNext clock' single row') := by
  obtain ⟨houter, hinner, hR⟩ := h
  cases hopen : single.base.state with
  | kUnopened =>
    simp only [StageHooks.planStage]
    rw [PlanStageBase.getNext_rejected (.inl (houter.trans hopen)),
      PlanStageBase.getNext_rejected (.inl hopen)]
    exact ⟨.rejected rfl rfl, (fun h => by cases h), houter, hinner, hR⟩
  | kClosed =>
    simp only [StageHooks.planStage]
    rw [PlanStageBase.getNext_rejected (.inr (houter.trans hopen)),
      PlanStageBase.getNext_rejected (.inr hopen)]
    exact ⟨.rejected rfl rfl, (fun h => by cases h), houter, hinner, hR⟩
  | kEof =>
    simp only [StageHooks.planStage]
    rw [PlanStageBase.getNext_eof (houter.trans hopen), PlanStageBase.getNext_eof hopen]
    exact ⟨.ok _, (fun h => by cases h), houter, hinner, hR⟩
  | kOpen =>
    obtain ⟨stats, hresult, houtput, hstage, hstate⟩ := FilterStage.getNext_open
      (FilterStage.hooks child p).planStage q clock row
      (houter.trans hopen)
    obtain ⟨stats', hresult', houtput', hstage', hstate'⟩ :=
      FilterStage.getNext_open child' r clock' row' hopen
    have hfused : FusedLoop R
        (whileAdvanced (FilterStage.hooks child p).planStage (FilterStage.body q) clock.tick
          stack.members.child stats {})
        (whileAdvanced child' (FilterStage.body r) clock'.tick single.members.child stats' {}) :=
      pullRounds_fused hchild htest _ _ clock.tick clock'.tick stack.members.child
        single.members.child stats stats' {} {} (Nat.lt_succ_self _) (Nat.lt_succ_self _)
        (hinner.trans hopen) hR
    obtain ⟨hends, hrow, hloopInner, hloopStage⟩ := hfused
    refine ⟨?_, fun hadvanced => ?_, ?_, ?_, ?_⟩
    · rw [hresult, hresult']
      exact hends
    · rw [hresult] at hadvanced
      have hadvanced' := (hadvanced ▸ hends).ok_left
      rw [houtput hadvanced, houtput' hadvanced']
      exact hrow hadvanced
    · rw [hstate, hstate']
      exact hends.afterNext
    · rw [hstage, hstate']
      exact hloopInner
    · rw [hstage, hstage']
      exact hloopStage

theorem Fused.close_alike (hchild : Bisimulation child child' R)
    {stack : StageObject (FilterStage (StageObject (FilterStage σ)))}
    {single : StageObject (FilterStage τ)} (h : Fused R stack single) :
    Fused R ((FilterStage.hooks (FilterStage.hooks child p).planStage q).planStage.close stack)
      ((FilterStage.hooks child' r).planStage.close single) := by
  obtain ⟨houter, hinner, hR⟩ := h
  by_cases hclosed : single.base.state = .kClosed
  · rw [FilterStage.close_closed child' r hclosed,
      FilterStage.close_closed (FilterStage.hooks child p).planStage q (houter.trans hclosed)]
    exact ⟨houter, hinner, hR⟩
  · obtain ⟨hstate, hmember⟩ := FilterStage.close_child child' r hclosed
    obtain ⟨hinnerState, hinnerMember⟩ := FilterStage.close_child child p
      (fun h => hclosed (hinner.symm.trans h))
    obtain ⟨houterState, houterMember⟩ := FilterStage.close_child
      (FilterStage.hooks child p).planStage q
      (fun h => hclosed (houter.symm.trans h))
    refine ⟨houterState.trans hstate.symm, ?_, ?_⟩
    · rw [houterMember, hinnerState, hstate]
    · rw [houterMember, hinnerMember, hmember]
      exact hchild.close hR

/-- **Fusion.**  A filter on a filter is a filter on both tests. -/
theorem filter_fused (hchild : Bisimulation child child' R)
    (htest : ∀ row, r.test row = bothTests (p.test row) (q.test row)) :
    Bisimulation (FilterStage.hooks (FilterStage.hooks child p).planStage q).planStage
      (FilterStage.hooks child' r).planStage (Fused R) where
  «open» clock clock' _ _ h := h.open_alike hchild clock clock'
  getNext clock clock' row row' _ _ h := h.getNext_alike hchild htest clock clock' row row'
  close h := h.close_alike hchild

end Fusion

/-! ## A filter that accepts everything

  The loop of such a filter is left at its first row, so a pull of the filter is one pull of the
  child.  The filter and the stage under it are always in the same state, which is what `Through`
  keeps. -/

section Through

variable {F : Type} {hooks : StageHooks F} {M : F → F → Prop} {accept : Expression}

/-- A stage object, and a filter on such an object: they are always in the same state. -/
structure Through (M : F → F → Prop) (bare : StageObject F)
    (filter : StageObject (FilterStage (StageObject F))) : Prop where
  state : filter.base.state = bare.base.state
  child : ObjectAlike M bare filter.members.child

/-- The state of an open stage after a `getNext()`. -/
theorem PlanStageBase.state_getNext (hooks : StageHooks F) (clock : Clock) (row : Row) {this : StageObject F}
    (h : this.base.state = .kOpen) :
    (hooks.planStage.getNext clock this row).stage.base.state =
      .afterNext (hooks.planStage.getNext clock this row).result := by
  obtain ⟨micros, herr, hok⟩ := PlanStageBase.getNext_admitted hooks clock row h
  simp only [StageHooks.planStage]
  cases hend : (PlanStageBase.getNextHook hooks clock this row).result with
  | error e =>
    rw [herr e hend]
    exact h
  | ok state =>
    rw [hok state hend]
    cases state <;> rfl

/-- The state of a fresh stage after an `open()`. -/
theorem PlanStageBase.state_open (hooks : StageHooks F) (clock : Clock) {this : StageObject F}
    (h : this.base.state = .kUnopened) :
    (∀ e, (hooks.planStage.open clock this).result = .error e →
      (hooks.planStage.open clock this).stage.base.state = .kClosed) ∧
    ((hooks.planStage.open clock this).result = .ok () →
      (hooks.planStage.open clock this).stage.base.state = .kOpen) := by
  obtain ⟨micros, hok, herr⟩ := PlanStageBase.open_admitted hooks clock h
  simp only [StageHooks.planStage]
  cases hend : (PlanStageBase.openHook hooks clock this).result with
  | error e =>
    rw [herr e hend]
    exact ⟨fun _ _ => rfl, fun h => by cases h⟩
  | ok u =>
    rw [hok u hend]
    exact ⟨fun _ h => (by cases h), fun _ => rfl⟩

/-- The loop leaves with the first row. -/
theorem whileAdvanced_accept {σ : Type} (child : PlanStage σ)
    (haccept : ∀ row, accept.test row = .ok true) (clock : Clock) (s : σ) (stats : StageStats) :
    let call := child.getNext clock s {}
    let loop := whileAdvanced child (FilterStage.body accept) clock s stats {}
    loop.result = call.result ∧ loop.row = call.output ∧ loop.stage = call.stage := by
  simp only [whileAdvanced, pullRounds]
  generalize child.getNext clock s {} = call
  obtain ⟨result, output, s', clock'⟩ := call
  cases result with
  | error e => exact ⟨rfl, rfl, rfl⟩
  | ok state =>
    cases state with
    | kEof => exact ⟨rfl, rfl, rfl⟩
    | kAdvanced =>
      simp only [FilterStage.body, haccept]
      exact ⟨trivial, trivial, trivial⟩

/-- The filter is opened exactly when the stage under it is. -/
theorem Through.open_alike (hhooks : HooksAlike hooks hooks M) (clock clock' : Clock)
    {bare : StageObject F} {filter : StageObject (FilterStage (StageObject F))}
    (h : Through M bare filter) :
    OpenAlike (Through M) (hooks.planStage.open clock bare)
      ((FilterStage.hooks hooks.planStage accept).planStage.open clock' filter) := by
  obtain ⟨hstate, hchild⟩ := h
  by_cases hfresh : bare.base.state = .kUnopened
  · obtain ⟨hfail, hopen⟩ :=
      FilterStage.open_fresh hooks.planStage accept clock' (hstate.trans hfresh)
    obtain ⟨hclosed, hopened⟩ := PlanStageBase.state_open hooks clock hfresh
    obtain ⟨hresult, hstage⟩ := hhooks.open_alike clock clock'.tick hchild
    generalize hooks.planStage.open clock bare = call at hresult hstage hclosed hopened ⊢
    generalize hooks.planStage.open clock'.tick filter.members.child = call'
      at hresult hstage hfail hopen
    cases hend : call.result with
    | error e =>
      rw [hend] at hresult
      obtain ⟨e', hend'⟩ := hresult.error_left
      rw [hend'] at hresult
      obtain ⟨hfilterResult, hfilterState, hfilterChild⟩ := hfail e' hend'
      have hdown : call'.stage.base.state = .kClosed := hstage.state.symm.trans (hclosed e hend)
      have hagain : hooks.planStage.close call'.stage = call'.stage := if_pos hdown
      refine ⟨by rw [hend, hfilterResult]; exact hresult, ?_, ?_⟩
      · rw [hfilterState, hclosed e hend]
      · rw [hfilterChild, hagain]
        exact hstage
    | ok u =>
      rw [hend] at hresult
      obtain ⟨hfilterResult, hfilterState, hfilterChild⟩ := hopen hresult.ok_left
      refine ⟨by rw [hend, hfilterResult]; exact .ok (), ?_, ?_⟩
      · rw [hfilterState, hopened hend]
      · rw [hfilterChild]
        exact hstage
  · simp only [StageHooks.planStage]
    rw [PlanStageBase.open_rejected hfresh, PlanStageBase.open_rejected (hstate ▸ hfresh)]
    exact ⟨.rejected rfl rfl, hstate, hchild⟩

/-- A pull of the filter is ONE pull of the stage under it, whatever the answer is. -/
theorem Through.getNext_alike (hhooks : HooksAlike hooks hooks M)
    (haccept : ∀ row, accept.test row = .ok true) (clock clock' : Clock) (row row' : Row)
    {bare : StageObject F} {filter : StageObject (FilterStage (StageObject F))}
    (h : Through M bare filter) :
    NextAlike (Through M) (hooks.planStage.getNext clock bare row)
      ((FilterStage.hooks hooks.planStage accept).planStage.getNext clock' filter row') := by
  obtain ⟨hstate, hchild⟩ := h
  cases hopen : bare.base.state with
  | kUnopened =>
    simp only [StageHooks.planStage]
    rw [PlanStageBase.getNext_rejected (.inl hopen),
      PlanStageBase.getNext_rejected (.inl (hstate.trans hopen))]
    exact ⟨.rejected rfl rfl, (fun h => by cases h), hstate, hchild⟩
  | kClosed =>
    simp only [StageHooks.planStage]
    rw [PlanStageBase.getNext_rejected (.inr hopen),
      PlanStageBase.getNext_rejected (.inr (hstate.trans hopen))]
    exact ⟨.rejected rfl rfl, (fun h => by cases h), hstate, hchild⟩
  | kEof =>
    simp only [StageHooks.planStage]
    rw [PlanStageBase.getNext_eof hopen, PlanStageBase.getNext_eof (hstate.trans hopen)]
    exact ⟨.ok _, (fun h => by cases h), hstate, hchild.state, hchild.rowsOut, hchild.members⟩
  | kOpen =>
    obtain ⟨stats, hresult, houtput, hstage, hfilter⟩ :=
      FilterStage.getNext_open hooks.planStage accept clock' row' (hstate.trans hopen)
    obtain ⟨hloopResult, hloopRow, hloopStage⟩ :=
      whileAdvanced_accept hooks.planStage haccept clock'.tick filter.members.child stats
    obtain ⟨hends, hrow, halike⟩ := hhooks.getNext_alike clock clock'.tick row {} hchild
    have hbare := PlanStageBase.state_getNext hooks clock row hopen
    refine ⟨?_, fun hadvanced => ?_, ?_, ?_⟩
    · rw [hresult, hloopResult]
      exact hends
    · have hadvanced' := (hadvanced ▸ hends).ok_left
      rw [houtput (hloopResult.trans hadvanced'), hloopRow]
      exact hrow hadvanced
    · rw [hfilter, hloopResult, hbare]
      exact hends.afterNext.symm
    · rw [hstage, hloopStage]
      exact halike

theorem Through.close_alike (hhooks : HooksAlike hooks hooks M)
    {bare : StageObject F} {filter : StageObject (FilterStage (StageObject F))}
    (h : Through M bare filter) :
    Through M (hooks.planStage.close bare)
      ((FilterStage.hooks hooks.planStage accept).planStage.close filter) := by
  obtain ⟨hstate, hchild⟩ := h
  by_cases hclosed : bare.base.state = .kClosed
  · rw [FilterStage.close_closed hooks.planStage accept (hstate.trans hclosed),
      show hooks.planStage.close bare = bare from if_pos hclosed]
    exact ⟨hstate, hchild⟩
  · obtain ⟨hfilter, hmember⟩ := FilterStage.close_child hooks.planStage accept
      (fun h => hclosed (hstate.symm.trans h))
    have hbare : (hooks.planStage.close bare).base.state = .kClosed := by
      simp only [StageHooks.planStage, PlanStageBase.close, if_neg hclosed]
    refine ⟨hfilter.trans hbare.symm, ?_⟩
    rw [hmember]
    exact hhooks.close_alike hchild

/-- **No filter at all.**  A predicate that accepts every row leaves the stage as it is; this is
    `{"$match": {}}`, which is bound to the literal true. -/
theorem filter_through (hhooks : HooksAlike hooks hooks M)
    (haccept : ∀ row, accept.test row = .ok true) :
    Bisimulation hooks.planStage (FilterStage.hooks hooks.planStage accept).planStage
      (Through M) where
  «open» clock clock' _ _ h := h.open_alike hhooks clock clock'
  getNext clock clock' row row' _ _ h := h.getNext_alike hhooks haccept clock clock' row row'
  close h := h.close_alike hhooks

end Through

/-! ## Stacks

  The two cases together, by induction on a list of predicates: no filter at all for the empty
  list, and a filter on a stack for one more.  Bisimulations compose, so each step adds one of the
  two simulations above. -/

/-- The tests of a list of predicates, one after the other, as long as they accept. -/
def testAll : List Expression → Row → Except Exception Bool
  | [], _ => .ok true
  | predicate :: predicates, row => bothTests (predicate.test row) (testAll predicates row)

/-- The last test is made where all before it accepted. -/
theorem testAll_concat (predicates : List Expression) (predicate : Expression) (row : Row) :
    testAll (predicates ++ [predicate]) row =
      bothTests (testAll predicates row) (predicate.test row) := by
  induction predicates with
  | nil =>
    rw [List.nil_append, testAll, testAll, testAll]
    cases predicate.test row with
    | error e => rfl
    | ok accepted => cases accepted <;> rfl
  | cons first rest ih =>
    rw [List.cons_append, testAll, ih, testAll]
    cases first.test row with
    | error e => rfl
    | ok accepted => cases accepted <;> rfl

/-- A conjunction short-circuits as the stack does. -/
theorem test_conjunction (predicates : List Expression) (row : Row) :
    (Expression.conjunction predicates).test row = testAll predicates row := by
  rw [Expression.test, Expression.evaluate]
  induction predicates with
  | nil => rfl
  | cons predicate predicates ih =>
    rw [Expression.evaluateAll, testAll, Expression.test]
    cases predicate.evaluate row with
    | error e => rfl
    | ok result =>
      simp only
      cases result.getBool with
      | error e => rfl
      | ok accepted =>
        cases accepted with
        | false => rfl
        | true => exact ih

namespace PlanStageTree

/-- Filters on top of a plan, the topmost first. -/
def stack (child : PlanStageTree) : List Expression → PlanStageTree
  | [] => child
  | predicate :: predicates => .filterStage (child.stack predicates) predicate

/-- The child at the bottom of a stack. -/
def bottom (child : PlanStageTree) : (predicates : List Expression) →
    (child.stack predicates).Object → child.Object
  | [], this => this
  | _ :: predicates, this => child.bottom predicates (StageObject.members this).child

/-- How many rows have been pulled from the child of a stack. -/
def rowsPulled (child : PlanStageTree) (predicates : List Expression)
    (this : (child.stack predicates).Object) : Nat :=
  (child.base (child.bottom predicates this)).stats.rowsOut

/-- Objects that differ in their timing alone have given out as many rows. -/
theorem rowsOut_of_same : ∀ {tree : PlanStageTree} {this that : tree.Object}, tree.Same this that →
    (tree.base this).stats.rowsOut = (tree.base that).stats.rowsOut
  | collectionScanStage _, _, _, h => ObjectAlike.rowsOut h
  | filterStage _ _, _, _, h => ObjectAlike.rowsOut h
  | projectStage _ _, _, _, h => ObjectAlike.rowsOut h
  | sortStage _ _, _, _, h => ObjectAlike.rowsOut h
  | limitStage _ _, _, _, h => ObjectAlike.rowsOut h
  | topKStage _ _ _, _, _, h => ObjectAlike.rowsOut h

variable [StdLibrary]

/-- A plan, and a filter on it that accepts everything. -/
theorem through (child : PlanStageTree) {accept : Expression}
    (haccept : ∀ row, accept.test row = .ok true) :
    ∃ R, Bisimulation child.planStage (filterStage child accept).planStage R ∧
      R child.constructed (filterStage child accept).constructed ∧
      ∀ this that, R this that →
        (child.base this).stats.rowsOut = child.rowsPulled [accept] that := by
  have hsame := child.same_constructed
  cases child with
  | collectionScanStage table =>
    exact ⟨_, filter_through (CollectionScanStage.hooksAlike table) haccept, ⟨rfl, hsame⟩,
      fun this that h => h.child.rowsOut⟩
  | filterStage child predicate =>
    exact ⟨_, filter_through (FilterStage.hooksAlike child.bisimulation fun _ => rfl) haccept,
      ⟨rfl, hsame⟩, fun this that h => h.child.rowsOut⟩
  | projectStage child columnIndices =>
    exact ⟨_, filter_through (ProjectStage.hooksAlike child.bisimulation columnIndices) haccept,
      ⟨rfl, hsame⟩, fun this that h => h.child.rowsOut⟩
  | sortStage child comparator =>
    exact ⟨_, filter_through (SortStage.hooksAlike child.bisimulation comparator) haccept,
      ⟨rfl, hsame⟩, fun this that h => h.child.rowsOut⟩
  | limitStage child limit =>
    exact ⟨_, filter_through (LimitStage.hooksAlike child.bisimulation limit) haccept,
      ⟨rfl, hsame⟩, fun this that h => h.child.rowsOut⟩
  | topKStage child comparator k =>
    exact ⟨_, filter_through (TopKStage.hooksAlike child.bisimulation comparator k) haccept,
      ⟨rfl, hsame⟩, fun this that h => h.child.rowsOut⟩

/-- **The cascade.**  A stack of filters is one filter with all the tests, by induction on the
    stack: the filters below the topmost one are one filter already, and fusion adds its test. -/
theorem stack_bisimilar (child : PlanStageTree) : ∀ (predicates : List Expression)
    (single : Expression), (∀ row, single.test row = testAll predicates.reverse row) →
    ∃ R, Bisimulation (child.stack predicates).planStage (filterStage child single).planStage R ∧
      R (child.stack predicates).constructed (filterStage child single).constructed ∧
      ∀ this that, R this that → child.rowsPulled predicates this = child.rowsPulled [single] that
  | [], single, htest => child.through htest
  | predicate :: predicates, single, htest => by
    -- the filters below, as one conjunction
    have hbelow := test_conjunction predicates.reverse
    obtain ⟨R, hbelowR, hstart, hpulled⟩ :=
      child.stack_bisimilar predicates (.conjunction predicates.reverse) hbelow
    have hcongr := (FilterStage.hooksAlike (p := predicate) (q := predicate) hbelowR
      fun _ => rfl).bisimulation
    have hfused := filter_fused child.bisimulation (p := .conjunction predicates.reverse)
      (q := predicate) (r := single) fun row => by
        rw [htest, List.reverse_cons, testAll_concat, hbelow]
    refine ⟨_, hcongr.trans hfused, ⟨(filterStage (filterStage child
      (.conjunction predicates.reverse)) predicate).constructed, ?_, ?_⟩, ?_⟩
    · exact ⟨rfl, rfl, hstart, rfl⟩
    · exact ⟨rfl, rfl, child.same_constructed⟩
    · rintro this that ⟨between, hleft, hright⟩
      exact (hpulled _ _ hleft.members.child).trans (rowsOut_of_same hright.child)

end PlanStageTree

/-! ## The bound forms of `$match` -/

/-- The literal true, the one predicate, or the conjunction of them all. -/
def MatchForm (predicates : List Expression) (predicate : Expression) : Prop :=
  predicates = [] ∧ predicate = .literal (.bool true) ∨ predicates = [predicate] ∨
    2 ≤ predicates.length ∧ predicate = .conjunction predicates

/-- The binder produces one of the three forms, over the predicates it has bound in order. -/
theorem bindMatch_form {schema : Schema} {parsed : ParsedMatchStage} {predicate : Expression}
    (h : bindMatch schema parsed = .ok predicate) :
    ∃ predicates, bindComparisons schema parsed.predicates = .ok predicates ∧
      MatchForm predicates predicate := by
  unfold bindMatch at h
  split at h
  · rename_i hnil
    rw [hnil]
    exact ⟨[], rfl, .inl ⟨rfl, (Except.ok.inj h).symm⟩⟩
  · rename_i first hsingle
    rw [hsingle, bindComparisons, h]
    exact ⟨[predicate], rfl, .inr (.inl rfl)⟩
  · rename_i hnil hsingle
    cases hall : bindComparisons schema parsed.predicates with
    | error e => rw [hall] at h; cases h
    | ok operands =>
      rw [hall] at h
      refine ⟨operands, rfl, .inr (.inr ⟨?_, (Except.ok.inj h).symm⟩)⟩
      have hlength := (bindComparisons_binds hall).length_eq
      rw [← hlength]
      generalize parsed.predicates = predicates at hnil hsingle
      rcases predicates with _ | ⟨first, _ | ⟨second, rest⟩⟩
      · exact absurd rfl hnil
      · exact absurd rfl (hsingle first)
      · exact Nat.le_add_left 2 rest.length

/-- In each form the test is that of the list of predicates. -/
theorem MatchForm.test_eq {predicates : List Expression} {predicate : Expression}
    (h : MatchForm predicates predicate) (row : Row) :
    predicate.test row = testAll predicates row := by
  rcases h with ⟨rfl, rfl⟩ | rfl | ⟨-, rfl⟩
  · rfl
  · rw [testAll, testAll]
    cases predicate.test row with
    | error e => rfl
    | ok accepted => cases accepted <;> rfl
  · exact test_conjunction predicates row

/-- **The three forms of `$match`.**  For any bound predicates and any child: a filter with the
    bound predicate, and a stack of filters with the first predicate lowest and the last on top,
    answer any calls alike — the same rows, the same EOF, the same errors — and have then pulled as
    many rows from the child. -/
theorem match_cascade [StdLibrary] {schema : Schema} {parsed : ParsedMatchStage}
    {predicate : Expression} (hbind : bindMatch schema parsed = .ok predicate) :
    ∃ predicates, bindComparisons schema parsed.predicates = .ok predicates ∧
      MatchForm predicates predicate ∧
      ∀ (child : PlanStageTree) (clock clock' : Clock) (calls : List RootCall),
        let cascade := child.stack predicates.reverse
        let filter := child.stack [predicate]
        let stacked := rootCalls cascade.planStage (cascade.session clock) calls
        let single := rootCalls filter.planStage (filter.session clock') calls
        List.Forall₂ OutcomeAlike stacked.1 single.1 ∧
          child.rowsPulled predicates.reverse stacked.2.stage =
            child.rowsPulled [predicate] single.2.stage := by
  obtain ⟨predicates, hcomparisons, hform⟩ := bindMatch_form hbind
  refine ⟨predicates, hcomparisons, hform, fun child clock clock' calls => ?_⟩
  have htest : ∀ row, predicate.test row = testAll predicates.reverse.reverse row := by
    intro row
    rw [List.reverse_reverse]
    exact hform.test_eq row
  obtain ⟨R, hbisimilar, hstart, hpulled⟩ :=
    child.stack_bisimilar predicates.reverse predicate htest
  have hstart' : R ((child.stack predicates.reverse).session clock).stage
      ((child.stack [predicate]).session clock').stage := hstart
  obtain ⟨houtcomes, hend⟩ := rootCalls_alike hbisimilar calls hstart'
  exact ⟨houtcomes, hpulled _ _ hend⟩

/-- Two comparisons of one column. -/
def rangeMatch : ParsedMatchStage where
  predicates :=
    [{ field := ⟨"a"⟩, opToken := "$gt", literal := .int64 1 },
     { field := ⟨"a"⟩, opToken := "$lt", literal := .string "x" }]

/-- The first accepts the second row alone, which the second throws at. -/
theorem match_cascade_rangeMatch :
    letI := StdLibrary.reference
    let child := PlanStageTree.collectionScanStage
      { schema := ⟨["a"]⟩, rows := [⟨0, [.int64 0]⟩, ⟨1, [.int64 2]⟩, ⟨2, [.null]⟩] }
    ∃ (predicate : Expression) (predicates : List Expression),
      bindMatch ⟨["a"]⟩ rangeMatch = .ok predicate ∧ predicates.length = 2 ∧
      let cascade := child.stack predicates.reverse
      let filter := child.stack [predicate]
      List.Forall₂ OutcomeAlike
        (rootCalls cascade.planStage (cascade.session .still) [.open, .getNext {}, .getNext {}]).1
        (rootCalls filter.planStage (filter.session .still) [.open, .getNext {}, .getNext {}]).1 := by
  intro child
  obtain ⟨predicates, hcomparisons, -, halike⟩ :=
    @match_cascade StdLibrary.reference ⟨["a"]⟩ rangeMatch _ rfl
  refine ⟨_, predicates, rfl, ?_, (halike child .still .still _).1⟩
  rw [← (bindComparisons_binds hcomparisons).length_eq]
  rfl

end QueryLume
