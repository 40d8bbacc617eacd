/-
  When two pull iterators cannot be told apart.

  A bisimulation relates the states of two iterators so that every call — also one after an EOF,
  after an exception, or out of turn — ends alike on both sides and leaves related states behind.
  Neither the clock nor the row a caller passes in may make a difference.  Ending alike leaves out
  one thing: the text of a failed lifecycle check names the stage, so only its code is compared
  (`EndsAlike`).

  1. **Loops** — `whileAdvanced_alike`: two pull loops over bisimilar children, with bodies that do
     alike. The two loops need not pull equally often for the same fuel, so each side has its own.

  2. **Objects** — `HooksAlike.bisimulation`: from the hooks of two stage classes to their stage
     objects. The lifecycle state and the number of rows given out belong to the relation
     (`ObjectAlike`), the other counters do not.

  3. **Plans** — `PlanStageTree.bisimulation`: every plan is bisimilar to itself across two clocks;
     states that differ in their timing alone (`Same`) behave alike.  That is determinism.

  4. **Callers** — `rootCalls_alike`: what a caller sees of two bisimilar iterators, over any
     calls.

  Replacing a filter by a stack of filters (`Physical/Cascade.lean`) is shown with this relation.
-/
import QueryLume.Physical.Guarantees

namespace QueryLume

open StdAlgorithms

/-! ## Ends

  How two calls may end and still be alike.  Lifecycle errors name the stage that complains, and
  related plans may have different stages at their roots, so of these only the code is compared. -/

/-- Two calls ended alike: with the same value, with the same exception, or both with a failed
    lifecycle check, whose message names the stage. -/
inductive EndsAlike {α : Type} : Except Exception α → Except Exception α → Prop where
  | ok (a : α) : EndsAlike (.ok a) (.ok a)
  | error (e : Exception) : EndsAlike (.error e) (.error e)
  | rejected {e e' : Exception} (left : e.code = some .kInvalidStageLifecycle)
      (right : e'.code = some .kInvalidStageLifecycle) : EndsAlike (.error e) (.error e')

namespace EndsAlike

variable {α : Type} {x y z : Except Exception α}

/-- Two lifecycle complaints may name two stages, so this is not transitivity of equality: the
    code is what is passed on. -/
theorem trans (hxy : EndsAlike x y) (hyz : EndsAlike y z) : EndsAlike x z := by
  cases hxy with
  | ok a => exact hyz
  | error e => exact hyz
  | rejected left right =>
    cases hyz with
    | error e => exact .rejected left right
    | rejected _ right' => exact .rejected left right'

theorem ok_left {a : α} (h : EndsAlike (.ok a) y) : y = .ok a := by
  cases h with
  | ok => rfl

theorem error_left {e : Exception} (h : EndsAlike (.error e : Except Exception α) y) :
    ∃ e', y = .error e' := by
  cases h with
  | error => exact ⟨e, rfl⟩
  | rejected => exact ⟨_, rfl⟩

/-- The same error code on both sides. -/
theorem code {e e' : Exception} (h : EndsAlike (.error e : Except Exception α) (.error e')) :
    e.code = e'.code := by
  cases h with
  | error => rfl
  | rejected left right => exact left.trans right.symm

end EndsAlike

/-! ## Iterators

  The relation between two plans, stated for the interface alone: whatever call a parent makes on
  both, it gets the same and is left with related children. -/

section Iterators

variable {σ τ υ : Type}

/-- Two `getNext` calls that end alike, deliver the same row if any, and leave related states. -/
structure NextAlike (R : σ → τ → Prop) (call : NextCall σ) (call' : NextCall τ) : Prop where
  result : EndsAlike call.result call'.result
  output : call.result = .ok .kAdvanced → call.output = call'.output
  stage : R call.stage call'.stage

/-- Two `open` calls that end alike and leave related states. -/
structure OpenAlike (R : σ → τ → Prop) (call : OpenCall σ) (call' : OpenCall τ) : Prop where
  result : EndsAlike call.result call'.result
  stage : R call.stage call'.stage

/-- Related states stay related, and nothing a caller sees tells them apart. -/
structure Bisimulation (iterator : PlanStage σ) (iterator' : PlanStage τ) (R : σ → τ → Prop) :
    Prop where
  «open» : ∀ clock clock' {s t}, R s t → OpenAlike R (iterator.open clock s) (iterator'.open clock' t)
  getNext : ∀ clock clock' row row' {s t}, R s t →
    NextAlike R (iterator.getNext clock s row) (iterator'.getNext clock' t row')
  close : ∀ {s t}, R s t → R (iterator.close s) (iterator'.close t)

theorem NextAlike.trans {R : σ → τ → Prop} {R' : τ → υ → Prop} {call : NextCall σ}
    {call' : NextCall τ} {call'' : NextCall υ} (h : NextAlike R call call')
    (h' : NextAlike R' call' call'') :
    NextAlike (fun s u => ∃ t, R s t ∧ R' t u) call call'' where
  result := h.result.trans h'.result
  output hok := by
    have hok' : call'.result = .ok .kAdvanced := (hok ▸ h.result).ok_left
    rw [h.output hok, h'.output hok']
  stage := ⟨_, h.stage, h'.stage⟩

/-- Bisimulations compose. -/
theorem Bisimulation.trans {iterator : PlanStage σ} {iterator' : PlanStage τ}
    {iterator'' : PlanStage υ} {R : σ → τ → Prop} {R' : τ → υ → Prop}
    (h : Bisimulation iterator iterator' R) (h' : Bisimulation iterator' iterator'' R') :
    Bisimulation iterator iterator'' (fun s u => ∃ t, R s t ∧ R' t u) where
  «open» clock clock' s u := by
    rintro ⟨t, hst, htu⟩
    have hleft := h.open clock clock hst
    have hright := h'.open clock clock' htu
    exact ⟨hleft.result.trans hright.result, _, hleft.stage, hright.stage⟩
  getNext clock clock' row row' s u := by
    rintro ⟨t, hst, htu⟩
    exact (h.getNext clock clock row row hst).trans (h'.getNext clock clock' row row' htu)
  close := by
    rintro s u ⟨t, hst, htu⟩
    exact ⟨_, h.close hst, h'.close htu⟩

/-! ## Loops

  A parent calls its child in a loop, so the loop is where two children have to be followed side by
  side.  The induction is on the rounds of one of them, since both go round equally often. -/

variable {β β' : Type}

/-- Two rounds of a body that do alike. -/
inductive FlowAlike (B : β → β' → Prop) : Flow β → Flow β' → Prop where
  | again {b : β} {b' : β'} (row row' : Row) (locals : B b b') :
      FlowAlike B (.again b row) (.again b' row')
  | done {b : β} {b' : β'} (row : Row) (locals : B b b') : FlowAlike B (.done b row) (.done b' row)
  | throw {b : β} {b' : β'} (e : Exception) (locals : B b b') :
      FlowAlike B (.throw e b) (.throw e b')

/-- Two loops that ended alike: with the same row if they advanced, and with related locals and
    children in every case. -/
structure LoopAlike (R : σ → τ → Prop) (B : β → β' → Prop) (loop : LoopCall σ β)
    (loop' : LoopCall τ β') : Prop where
  result : EndsAlike loop.result loop'.result
  row : loop.result = .ok .kAdvanced → loop.row = loop'.row
  locals : B loop.locals loop'.locals
  stage : R loop.stage loop'.stage

/-- **The loop lemma.**  Loops over bisimilar children with bodies that do alike, alike themselves;
    by induction on the rounds of one of them. -/
theorem pullRounds_alike {child : PlanStage σ} {child' : PlanStage τ} {R : σ → τ → Prop}
    {B : β → β' → Prop} {body : β → Row → Flow β} {body' : β' → Row → Flow β'}
    (hchild : Bisimulation child child' R)
    (hbody : ∀ b b' row, B b b' → FlowAlike B (body b row) (body' b' row)) :
    ∀ fuel fuel' clock clock' s t b b' row row', child.bound s < fuel → child'.bound t < fuel' →
      R s t → B b b' →
      LoopAlike R B (pullRounds child body fuel clock s b row)
        (pullRounds child' body' fuel' clock' t b' row') := by
  intro fuel
  induction fuel with
  | zero =>
    intro fuel' clock clock' s t b b' row row' hlt
    exact absurd hlt (Nat.not_lt_zero _)
  | succ fuel ih =>
    intro fuel' clock clock' s t b b' row row' hlt hlt' hR hB
    obtain _ | fuel' := fuel'
    · exact absurd hlt' (Nat.not_lt_zero _)
    have hnext := hchild.getNext clock clock' row row' hR
    have hbound := child.bound_getNext clock s row
    have hbound' := child'.bound_getNext clock' t row'
    unfold pullRounds
    generalize child.getNext clock s row = call at hnext hbound
    generalize child'.getNext clock' t row' = call' at hnext hbound'
    obtain ⟨result, output, s', clock⟩ := call
    obtain ⟨result', output', t', clock'⟩ := call'
    obtain ⟨hresult, houtput, hstage⟩ := hnext
    simp only at hresult houtput hstage hbound hbound' ⊢
    cases hresult with
    | error e => exact ⟨.error e, (fun h => by cases h), hB, hstage⟩
    | rejected left right => exact ⟨.rejected left right, (fun h => by cases h), hB, hstage⟩
    | ok state =>
      cases state with
      | kEof => exact ⟨.ok _, (fun h => by cases h), hB, hstage⟩
      | kAdvanced =>
        obtain rfl := houtput rfl
        have hflow := hbody b b' output hB
        simp only
        generalize body b output = flow at hflow
        generalize body' b' output = flow' at hflow
        cases hflow with
        | again next next' locals =>
          have hfuel : child.bound s' < fuel := by have := hbound rfl; omega
          have hfuel' : child'.bound t' < fuel' := by have := hbound' rfl; omega
          exact ih fuel' clock clock' s' t' _ _ next next' hfuel hfuel' hstage locals
        | done row locals => exact ⟨.ok _, fun _ => rfl, locals, hstage⟩
        | throw e locals => exact ⟨.error e, (fun h => by cases h), locals, hstage⟩

theorem whileAdvanced_alike {child : PlanStage σ} {child' : PlanStage τ} {R : σ → τ → Prop}
    {B : β → β' → Prop} {body : β → Row → Flow β} {body' : β' → Row → Flow β'}
    (hchild : Bisimulation child child' R)
    (hbody : ∀ b b' row, B b b' → FlowAlike B (body b row) (body' b' row))
    (clock clock' : Clock) {s : σ} {t : τ} {b : β} {b' : β'} (row row' : Row) (hR : R s t)
    (hB : B b b') :
    LoopAlike R B (whileAdvanced child body clock s b row)
      (whileAdvanced child' body' clock' t b' row') :=
  pullRounds_alike hchild hbody _ _ clock clock' s t b b' row row' (Nat.lt_succ_self _)
    (Nat.lt_succ_self _) hR hB

end Iterators

/-! ## Stage objects

  From hooks to stage objects, once for all classes.  The wrapper looks at the lifecycle state and
  nowhere else, and related objects are in the same state. -/

section Objects

variable {F G : Type}

/-- Stage objects in the same state that have given out as many rows, with related members. -/
structure ObjectAlike (M : F → G → Prop) (this : StageObject F) (that : StageObject G) : Prop where
  state : this.base.state = that.base.state
  rowsOut : this.base.stats.rowsOut = that.base.stats.rowsOut
  members : M this.members that.members

/-- The same, for what hooks can reach. -/
structure ProtectedAlike (M : F → G → Prop) (this : Protected F) (that : Protected G) : Prop where
  rowsOut : this.stats.rowsOut = that.stats.rowsOut
  members : M this.members that.members

/-- Hooks that do alike on related members. -/
structure HooksAlike (hooks : StageHooks F) (hooks' : StageHooks G) (M : F → G → Prop) : Prop where
  onOpen : ∀ clock clock' {p q}, ProtectedAlike M p q →
    OpenAlike (ProtectedAlike M) (hooks.onOpen clock p) (hooks'.onOpen clock' q)
  onGetNext : ∀ clock clock' row row' {p q}, ProtectedAlike M p q →
    NextAlike (ProtectedAlike M) (hooks.onGetNext clock p row) (hooks'.onGetNext clock' q row')
  onClose : ∀ {m n}, M m n → M (hooks.onClose m) (hooks'.onClose n)

variable {hooks : StageHooks F} {hooks' : StageHooks G} {M : F → G → Prop}

/-- The wrapper around `onOpen`: both sides are admitted or neither is, and a hook that throws
    closes both. -/
theorem HooksAlike.open_alike (h : HooksAlike hooks hooks' M) (clock clock' : Clock)
    {this : StageObject F} {that : StageObject G} (hR : ObjectAlike M this that) :
    OpenAlike (ObjectAlike M) (hooks.planStage.open clock this)
      (hooks'.planStage.open clock' that) := by
  obtain ⟨hstate, hrows, hmembers⟩ := hR
  simp only [StageHooks.planStage]
  by_cases hfresh : this.base.state = .kUnopened
  · have hfresh' : that.base.state = .kUnopened := hstate ▸ hfresh
    obtain ⟨micros, hok, herr⟩ := PlanStageBase.open_admitted hooks clock hfresh
    obtain ⟨micros', hok', herr'⟩ := PlanStageBase.open_admitted hooks' clock' hfresh'
    have hcall : OpenAlike (ProtectedAlike M) (PlanStageBase.openHook hooks clock this)
        (PlanStageBase.openHook hooks' clock' that) := h.onOpen _ _ ⟨hrows, hmembers⟩
    obtain ⟨hresult, hrows', hmembers'⟩ := hcall
    cases hend : (PlanStageBase.openHook hooks clock this).result with
    | error e =>
      rw [hend] at hresult
      obtain ⟨e', hend'⟩ := hresult.error_left
      rw [herr e hend, herr' e' hend']
      rw [hend'] at hresult
      exact ⟨hresult, rfl, hrows', h.onClose hmembers'⟩
    | ok u =>
      rw [hend] at hresult
      rw [hok u hend, hok' u hresult.ok_left]
      exact ⟨.ok (), rfl, hrows', hmembers'⟩
  · have hfresh' : that.base.state ≠ .kUnopened := hstate ▸ hfresh
    rw [PlanStageBase.open_rejected hfresh, PlanStageBase.open_rejected hfresh']
    exact ⟨.rejected rfl rfl, hstate, hrows, hmembers⟩

/-- The wrapper around `onGetNext`, one case per lifecycle state. -/
theorem HooksAlike.getNext_alike (h : HooksAlike hooks hooks' M) (clock clock' : Clock)
    (row row' : Row) {this : StageObject F} {that : StageObject G}
    (hR : ObjectAlike M this that) :
    NextAlike (ObjectAlike M) (hooks.planStage.getNext clock this row)
      (hooks'.planStage.getNext clock' that row') := by
  obtain ⟨hstate, hrows, hmembers⟩ := hR
  simp only [StageHooks.planStage]
  cases hopen : this.base.state with
  | kUnopened =>
    rw [PlanStageBase.getNext_rejected (.inl hopen),
      PlanStageBase.getNext_rejected (.inl (hstate ▸ hopen))]
    exact ⟨.rejected rfl rfl, (fun h => by cases h), hstate, hrows, hmembers⟩
  | kClosed =>
    rw [PlanStageBase.getNext_rejected (.inr hopen),
      PlanStageBase.getNext_rejected (.inr (hstate ▸ hopen))]
    exact ⟨.rejected rfl rfl, (fun h => by cases h), hstate, hrows, hmembers⟩
  | kEof =>
    rw [PlanStageBase.getNext_eof hopen, PlanStageBase.getNext_eof (hstate ▸ hopen)]
    exact ⟨.ok _, (fun h => by cases h), hstate, hrows, hmembers⟩
  | kOpen =>
    obtain ⟨micros, herr, hok⟩ := PlanStageBase.getNext_admitted hooks clock row hopen
    obtain ⟨micros', herr', hok'⟩ :=
      PlanStageBase.getNext_admitted hooks' clock' row' (hstate ▸ hopen)
    have hcall : NextAlike (ProtectedAlike M) (PlanStageBase.getNextHook hooks clock this row)
        (PlanStageBase.getNextHook hooks' clock' that row') := h.onGetNext _ _ _ _ ⟨hrows, hmembers⟩
    obtain ⟨hresult, houtput, hrows', hmembers'⟩ := hcall
    cases hend : (PlanStageBase.getNextHook hooks clock this row).result with
    | error e =>
      rw [hend] at hresult
      obtain ⟨e', hend'⟩ := hresult.error_left
      rw [herr e hend, herr' e' hend']
      rw [hend'] at hresult
      exact ⟨hresult, (fun h => by cases h), hstate, hrows', hmembers'⟩
    | ok state =>
      rw [hend] at hresult
      rw [hok state hend, hok' state hresult.ok_left]
      refine ⟨.ok state, fun hadvanced => houtput (hend.trans ?_), rfl, hrows', hmembers'⟩
      exact hadvanced

theorem HooksAlike.close_alike (h : HooksAlike hooks hooks' M) {this : StageObject F}
    {that : StageObject G} (hR : ObjectAlike M this that) :
    ObjectAlike M (hooks.planStage.close this) (hooks'.planStage.close that) := by
  obtain ⟨hstate, hrows, hmembers⟩ := hR
  simp only [StageHooks.planStage, PlanStageBase.close]
  by_cases hclosed : this.base.state = .kClosed
  · rw [if_pos hclosed, if_pos (hstate ▸ hclosed)]
    exact ⟨hstate, hrows, hmembers⟩
  · rw [if_neg hclosed, if_neg (hstate ▸ hclosed)]
    exact ⟨rfl, hrows, h.onClose hmembers⟩

/-- **Wrapping.**  The shared half of the stages adds nothing that could tell them apart: it
    looks at the lifecycle state, which is the same on both sides. -/
theorem HooksAlike.bisimulation (h : HooksAlike hooks hooks' M) :
    Bisimulation hooks.planStage hooks'.planStage (ObjectAlike M) where
  «open» clock clock' _ _ hR := h.open_alike clock clock' hR
  getNext clock clock' row row' _ _ hR := h.getNext_alike clock clock' row row' hR
  close hR := h.close_alike hR

end Objects

/-! ## The stages over bisimilar children

  One lemma per class: hooks that read the same members and call bisimilar children do alike. -/

section Stages

variable {σ τ Own : Type} {child : PlanStage σ} {child' : PlanStage τ} {R : σ → τ → Prop}

/-- Parents with members of their own that agree, over related children. -/
structure ParentAlike (R : σ → τ → Prop) (m : ParentStage Own σ) (n : ParentStage Own τ) : Prop where
  child : R m.child n.child
  own : m.own = n.own

/-- What the streaming stages do when they are opened. -/
theorem openChild_alike (hchild : Bisimulation child child' R) (clock clock' : Clock)
    {p : Protected (ParentStage Own σ)} {q : Protected (ParentStage Own τ)}
    (h : ProtectedAlike (ParentAlike R) p q) :
    OpenAlike (ProtectedAlike (ParentAlike R)) (openChild child clock p)
      (openChild child' clock' q) := by
  have hopen := hchild.open clock clock' h.members.child
  exact ⟨hopen.result, h.rowsOut, hopen.stage, h.members.own⟩

/-- Filters whose predicates test alike. -/
theorem FilterStage.hooksAlike (hchild : Bisimulation child child' R) {p q : Expression}
    (htest : ∀ row, p.test row = q.test row) :
    HooksAlike (FilterStage.hooks child p) (FilterStage.hooks child' q) (ParentAlike R) where
  onOpen clock clock' _ _ h := openChild_alike hchild clock clock' h
  onGetNext clock clock' row row' this that h := by
    have hbody : ∀ (stats stats' : StageStats) row, stats.rowsOut = stats'.rowsOut →
        FlowAlike (fun stats stats' : StageStats => stats.rowsOut = stats'.rowsOut)
          (FilterStage.body p stats row) (FilterStage.body q stats' row) := by
      intro stats stats' row hB
      simp only [FilterStage.body, htest]
      cases q.test row with
      | error e => exact .throw e hB
      | ok accepted =>
        cases accepted with
        | true => exact .done row (congrArg (· + 1) hB)
        | false => exact .again row row hB
    obtain ⟨hresult, hrow, hlocals, hstage⟩ :=
      whileAdvanced_alike hchild hbody clock clock' {} {} h.members.child h.rowsOut
    simp only [FilterStage.hooks, FilterStage.onGetNext]
    refine ⟨hresult, fun hok => ?_, hlocals, hstage, h.members.own⟩
    simp only at hok ⊢
    rw [hok] at hresult
    rw [if_pos hok, if_pos hresult.ok_left]
    exact hrow hok
  onClose h := ⟨hchild.close h.child, h.own⟩

theorem ProjectStage.hooksAlike (hchild : Bisimulation child child' R) (columnIndices : List Nat) :
    HooksAlike (ProjectStage.hooks child columnIndices) (ProjectStage.hooks child' columnIndices)
      (ParentAlike R) where
  onOpen clock clock' _ _ h := openChild_alike hchild clock clock' h
  onGetNext clock clock' row row' this that h := by
    have hnext := hchild.getNext clock clock' {} {} h.members.child
    simp only [ProjectStage.hooks, ProjectStage.onGetNext]
    generalize child.getNext clock this.members.child {} = call at hnext
    generalize child'.getNext clock' that.members.child {} = call' at hnext
    obtain ⟨result, output, s, clock⟩ := call
    obtain ⟨result', output', t, clock'⟩ := call'
    obtain ⟨hresult, houtput, hstage⟩ := hnext
    simp only at hresult houtput hstage ⊢
    cases hresult with
    | error e => exact ⟨.error e, (fun h => by cases h), h.rowsOut, hstage, h.members.own⟩
    | rejected left right =>
      exact ⟨.rejected left right, (fun h => by cases h), h.rowsOut, hstage, h.members.own⟩
    | ok state =>
      cases state with
      | kEof => exact ⟨.ok _, (fun h => by cases h), h.rowsOut, hstage, h.members.own⟩
      | kAdvanced =>
        obtain rfl := houtput rfl
        simp only
        cases project columnIndices output with
        | error e => exact ⟨.error e, (fun h => by cases h), h.rowsOut, hstage, h.members.own⟩
        | ok projected =>
          exact ⟨.ok _, fun _ => rfl, congrArg (· + 1) h.rowsOut, hstage, h.members.own⟩
  onClose h := ⟨hchild.close h.child, h.own⟩

/-- Limits with the same count; how many rows were let through is a member of their own, the same
    on both sides. -/
theorem LimitStage.hooksAlike (hchild : Bisimulation child child' R) (limit : Nat) :
    HooksAlike (LimitStage.hooks child limit) (LimitStage.hooks child' limit) (ParentAlike R) where
  onOpen clock clock' _ _ h := openChild_alike hchild clock clock' h
  onGetNext clock clock' row row' this that h := by
    have hnext := hchild.getNext clock clock' row row' h.members.child
    simp only [LimitStage.hooks, LimitStage.onGetNext, ← h.members.own]
    by_cases hfull : limit ≤ this.members.own.emitted
    · rw [if_pos hfull, if_pos hfull]
      exact ⟨.ok _, (fun h => by cases h), h⟩
    rw [if_neg hfull, if_neg hfull]
    generalize child.getNext clock this.members.child row = call at hnext
    generalize child'.getNext clock' that.members.child row' = call' at hnext
    obtain ⟨result, output, s, clock⟩ := call
    obtain ⟨result', output', t, clock'⟩ := call'
    obtain ⟨hresult, houtput, hstage⟩ := hnext
    simp only at hresult houtput hstage ⊢
    cases hresult with
    | error e => exact ⟨.error e, (fun h => by cases h), h.rowsOut, hstage, rfl⟩
    | rejected left right =>
      exact ⟨.rejected left right, (fun h => by cases h), h.rowsOut, hstage, rfl⟩
    | ok state =>
      cases state with
      | kEof => exact ⟨.ok _, (fun h => by cases h), h.rowsOut, hstage, rfl⟩
      | kAdvanced => exact ⟨.ok _, fun _ => houtput rfl, congrArg (· + 1) h.rowsOut, hstage, rfl⟩
  onClose h := ⟨hchild.close h.child, h.own⟩

/-- Drain loops that count alike and hold the same rows. -/
structure DrainAlike (drain drain' : Drain) : Prop where
  rowsOut : drain.stats.rowsOut = drain'.stats.rowsOut
  buffer : drain.buffer = drain'.buffer

variable [StdLibrary]

/-- The second half of opening a blocking stage: sort what the loop has left, and report what it
    weighs. -/
theorem BlockingStage.sortDrained_alike (comparator : RowComparator)
    {this : Protected (ParentStage RowBuffer σ)} {that : Protected (ParentStage RowBuffer τ)}
    (h : this.members.own = that.members.own) {loop : LoopCall σ Drain} {loop' : LoopCall τ Drain}
    (hloop : LoopAlike R DrainAlike loop loop') :
    OpenAlike (ProtectedAlike (ParentAlike R)) (sortDrained comparator this loop)
      (sortDrained comparator that loop') := by
  obtain ⟨result, ⟨stats, buffer⟩, row, s, clock⟩ := loop
  obtain ⟨result', ⟨stats', buffer'⟩, row', t, clock'⟩ := loop'
  obtain ⟨hresult, -, ⟨hrows, hbuffer⟩, hstage⟩ := hloop
  simp only at hresult hrows hbuffer hstage
  subst hbuffer
  have hleft : ∀ buffer, ({ this.members.own with buffer } : RowBuffer) =
      { that.members.own with buffer } := by
    intro buffer
    rw [h]
  simp only [sortDrained, leave]
  cases hresult with
  | error e => exact ⟨.error e, hrows, hstage, hleft _⟩
  | rejected left right => exact ⟨.rejected left right, hrows, hstage, hleft _⟩
  | ok state =>
    simp only
    cases stdSort comparator.call buffer with
    | error e => exact ⟨.error e, hrows, hstage, hleft _⟩
    | ok sorted => exact ⟨.ok (), hrows, hstage, hleft _⟩

/-- Both blocking stages, from what one round of their loop does. -/
theorem BlockingStage.hooksAlike (hchild : Bisimulation child child' R) (name : String)
    {body : Drain → Row → Flow Drain}
    (hbody : ∀ drain drain' row, DrainAlike drain drain' →
      FlowAlike DrainAlike (body drain row) (body drain' row)) (comparator : RowComparator) :
    HooksAlike (BlockingStage.hooks name child body comparator)
      (BlockingStage.hooks name child' body comparator) (ParentAlike R) where
  onOpen clock clock' this that h := by
    have hopen := hchild.open clock clock' h.members.child
    simp only [BlockingStage.hooks, BlockingStage.onOpen]
    generalize child.open clock this.members.child = call at hopen
    generalize child'.open clock' that.members.child = call' at hopen
    obtain ⟨result, s, clock⟩ := call
    obtain ⟨result', t, clock'⟩ := call'
    obtain ⟨hresult, hstage⟩ := hopen
    simp only at hresult hstage ⊢
    cases hresult with
    | error e => exact ⟨.error e, h.rowsOut, hstage, h.members.own⟩
    | rejected left right => exact ⟨.rejected left right, h.rowsOut, hstage, h.members.own⟩
    | ok u =>
      simp only
      have hstart : DrainAlike { stats := this.stats, buffer := this.members.own.buffer }
          { stats := that.stats, buffer := that.members.own.buffer } :=
        ⟨h.rowsOut, congrArg RowBuffer.buffer h.members.own⟩
      exact sortDrained_alike comparator h.members.own
        (whileAdvanced_alike hchild hbody clock clock' {} {} hstage hstart)
  onGetNext clock clock' row row' this that h := by
    simp only [BlockingStage.hooks, BlockingStage.onGetNext, ← h.members.own]
    cases this.members.own.buffer[this.members.own.nextIndex]? with
    | none => exact ⟨.ok _, (fun h => by cases h), h⟩
    | some row => exact ⟨.ok _, fun _ => rfl, congrArg (· + 1) h.rowsOut, h.members.child, rfl⟩
  onClose {m n} h := ⟨hchild.close h.child, by simp only [BlockingStage.hooks, BlockingStage.onClose, h.own]⟩

theorem SortStage.hooksAlike (hchild : Bisimulation child child' R) (comparator : RowComparator) :
    HooksAlike (SortStage.hooks child comparator) (SortStage.hooks child' comparator)
      (ParentAlike R) := by
  refine BlockingStage.hooksAlike hchild "SortStage" (fun drain drain' row h => ?_) comparator
  exact .again _ _ ⟨h.rowsOut, congrArg (· ++ [row]) h.buffer⟩

/-- Top-ks by the same comparator and with the same `k`. -/
theorem TopKStage.hooksAlike (hchild : Bisimulation child child' R) (comparator : RowComparator)
    (k : Nat) :
    HooksAlike (TopKStage.hooks child comparator k) (TopKStage.hooks child' comparator k)
      (ParentAlike R) := by
  refine BlockingStage.hooksAlike hchild "TopKStage" (fun drain drain' row h => ?_) comparator
  obtain ⟨stats, buffer⟩ := drain
  obtain ⟨stats', buffer'⟩ := drain'
  obtain ⟨hrows, rfl⟩ := h
  simp only [TopKStage.body]
  by_cases hk : k = 0
  · rw [if_pos hk, if_pos hk]
    exact .again _ _ ⟨hrows, rfl⟩
  rw [if_neg hk, if_neg hk]
  by_cases hroom : buffer.length < k
  · rw [if_pos hroom, if_pos hroom]
    cases pushHeap comparator.call (buffer ++ [row]) with
    | error e => exact .throw e ⟨hrows, rfl⟩
    | ok pushed => exact .again _ _ ⟨hrows, rfl⟩
  rw [if_neg hroom, if_neg hroom]
  cases buffer with
  | nil => exact .again _ _ ⟨hrows, rfl⟩
  | cons front rest =>
    simp only
    cases comparator.call row front with
    | error e => exact .throw e ⟨hrows, rfl⟩
    | ok better =>
      cases better with
      | false => exact .again _ _ ⟨hrows, rfl⟩
      | true =>
        simp only
        cases popHeap comparator.call (front :: rest) with
        | error e => exact .throw e ⟨hrows, rfl⟩
        | ok popped =>
          simp only
          cases pushHeap comparator.call (popped.dropLast ++ [row]) with
          | error e => exact .throw e ⟨hrows, rfl⟩
          | ok pushed => exact .again _ _ ⟨hrows, rfl⟩

omit [StdLibrary] in
theorem CollectionScanStage.hooksAlike (table : Table) :
    HooksAlike (CollectionScanStage.hooks table) (CollectionScanStage.hooks table) Eq where
  onOpen clock clock' _ _ h := ⟨.ok (), h.rowsOut, rfl⟩
  onGetNext clock clock' row row' this that h := by
    simp only [CollectionScanStage.hooks, CollectionScanStage.onGetNext, ← h.members]
    cases table.rows[this.members.nextIndex]? with
    | none => exact ⟨.ok _, (fun h => by cases h), h⟩
    | some row => exact ⟨.ok _, fun _ => rfl, congrArg (· + 1) h.rowsOut, rfl⟩
  onClose h := h

end Stages

/-! ## Whole plans

  A plan against itself, under two clocks.  No hook looks at the time, so the two runs cannot be
  told apart. -/

namespace PlanStageTree

/-- Objects of one plan that differ in their timing and call counts alone. -/
def Same : (tree : PlanStageTree) → tree.Object → tree.Object → Prop
  | collectionScanStage _ => ObjectAlike (F := CollectionScanStage) Eq
  | filterStage child _ => ObjectAlike (F := FilterStage child.Object) (ParentAlike child.Same)
  | projectStage child _ => ObjectAlike (F := ProjectStage child.Object) (ParentAlike child.Same)
  | sortStage child _ => ObjectAlike (F := SortStage child.Object) (ParentAlike child.Same)
  | limitStage child _ => ObjectAlike (F := LimitStage child.Object) (ParentAlike child.Same)
  | topKStage child _ _ => ObjectAlike (F := TopKStage child.Object) (ParentAlike child.Same)

theorem same_constructed : ∀ tree : PlanStageTree, tree.Same tree.constructed tree.constructed
  | collectionScanStage _ => ⟨rfl, rfl, rfl⟩
  | filterStage child _ => ⟨rfl, rfl, child.same_constructed, rfl⟩
  | projectStage child _ => ⟨rfl, rfl, child.same_constructed, rfl⟩
  | sortStage child _ => ⟨rfl, rfl, child.same_constructed, rfl⟩
  | limitStage child _ => ⟨rfl, rfl, child.same_constructed, rfl⟩
  | topKStage child _ _ => ⟨rfl, rfl, child.same_constructed, rfl⟩

variable [StdLibrary]

/-- **Determinism.**  No clock tells two runs of one plan apart; by induction on the plan, one
    stage class per case. -/
theorem bisimulation : ∀ tree : PlanStageTree,
    Bisimulation tree.planStage tree.planStage tree.Same
  | collectionScanStage table => (CollectionScanStage.hooksAlike table).bisimulation
  | filterStage child _ => (FilterStage.hooksAlike child.bisimulation fun _ => rfl).bisimulation
  | projectStage child columnIndices =>
    (ProjectStage.hooksAlike child.bisimulation columnIndices).bisimulation
  | sortStage child comparator => (SortStage.hooksAlike child.bisimulation comparator).bisimulation
  | limitStage child limit => (LimitStage.hooksAlike child.bisimulation limit).bisimulation
  | topKStage child comparator k => (TopKStage.hooksAlike child.bisimulation comparator k).bisimulation

end PlanStageTree

/-! ## What a caller sees

  Any calls on the two roots, in any order: step lemma and run lemma. -/

/-- Two outcomes a caller cannot tell apart. -/
inductive OutcomeAlike : RootOutcome → RootOutcome → Prop where
  | opened {result result' : Except Exception Unit} (ends : EndsAlike result result') :
      OutcomeAlike (.opened result) (.opened result')
  | pulled {result result' : Except Exception StageState} {output output' : Row}
      (ends : EndsAlike result result') (row : result = .ok .kAdvanced → output = output') :
      OutcomeAlike (.pulled result output) (.pulled result' output')
  | closed : OutcomeAlike .closed .closed

section Calls

variable {σ τ : Type} {root : PlanStage σ} {root' : PlanStage τ} {R : σ → τ → Prop}

/-- **The step lemma.**  One call on the root of each. -/
theorem rootCall_alike (h : Bisimulation root root' R) {session : Session σ} {session' : Session τ}
    (hR : R session.stage session'.stage) (call : RootCall) :
    OutcomeAlike (rootCall root session call).1 (rootCall root' session' call).1 ∧
      R (rootCall root session call).2.stage (rootCall root' session' call).2.stage := by
  cases call with
  | «open» =>
    have hcall := h.open session.clock session'.clock hR
    exact ⟨.opened hcall.result, hcall.stage⟩
  | getNext row =>
    have hcall := h.getNext session.clock session'.clock row row hR
    exact ⟨.pulled hcall.result hcall.output, hcall.stage⟩
  | close => exact ⟨.closed, h.close hR⟩

/-- **The run lemma.**  Any calls, in any order: the outcomes are alike one by one. -/
theorem rootCalls_alike (h : Bisimulation root root' R) : ∀ (calls : List RootCall)
    {session : Session σ} {session' : Session τ}, R session.stage session'.stage →
    List.Forall₂ OutcomeAlike (rootCalls root session calls).1 (rootCalls root' session' calls).1 ∧
      R (rootCalls root session calls).2.stage (rootCalls root' session' calls).2.stage
  | [], _, _, hR => ⟨.nil, hR⟩
  | call :: calls, session, session', hR => by
    obtain ⟨houtcome, hR'⟩ := rootCall_alike h hR call
    obtain ⟨houtcomes, hrest⟩ := rootCalls_alike h calls hR'
    exact ⟨.cons houtcome houtcomes, hrest⟩

end Calls

end QueryLume
