/-
  What a blocking stage holds while it drains its child.

  `loopHeads` lists the locals of a pull loop at its heads: on entry and after every completed
  iteration.  Nothing in the code reads them; they are where an invariant of the loop is stated.
  It is the loop of the stage again, with the same body and the same calls, and only keeps what it
  has seen: the last of its entries is what the loop left.

  Over a child that gives out rows, the buffers at the heads are the values of the fold of `fill`
  over these rows (`drainHeads_delivers`).  For a sort `fill` appends, so they are the prefixes of
  the input; for a top-k it offers the row to a heap.

  For a top-k over sortable rows that is the heap loop invariant (`topK_heapInvariant`): at every
  head the buffer is a heap of the `k` first of the rows pulled so far, each once.  The peak memory
  a stage reports is a statement about the same list (`Physical/PeakMemory.lean`).
-/
import QueryLume.Foundation.ReferenceAlgorithms
import QueryLume.Physical.ArrivalOrder

namespace QueryLume

open BoundedHeap StdAlgorithms

/-! ## The heads of a loop -/

section Heads

variable {σ β : Type}

/-- The locals at the heads of `fuel` rounds at most. -/
def roundHeads (child : PlanStage σ) (body : β → Row → Flow β) :
    Nat → Clock → σ → β → Row → List β
  | 0, _, _, locals, _ => [locals]
  | fuel + 1, clock, stage, locals, row =>
    let call := child.getNext clock stage row
    locals ::
      match call.result with
      | .ok .kAdvanced =>
        match body locals call.output with
        | .again locals row => roundHeads child body fuel call.clock call.stage locals row
        | _ => []
      | _ => []

/-- The locals of `whileAdvanced` on entry and after each completed iteration. -/
def loopHeads (child : PlanStage σ) (body : β → Row → Flow β) (clock : Clock) (stage : σ)
    (locals : β) (row : Row) : List β :=
  roundHeads child body (child.bound stage + 1) clock stage locals row

/-- The buffers of a blocking stage at the heads of its drain loop, while it is opened. -/
def BlockingStage.drainHeads (child : PlanStage σ) (body : Drain → Row → Flow Drain)
    (clock : Clock) (this : StageObject (ParentStage RowBuffer σ)) : List (List Row) :=
  -- the wrapper has read the clock once and counted the call before `onOpen` runs
  let counted := { this.base.stats with openCalls := this.base.stats.openCalls + 1 }
  let opened := child.open clock.tick this.members.child
  match opened.result with
  | .error _ => []
  | .ok () =>
    (loopHeads child body opened.clock opened.stage
      { stats := counted, buffer := this.members.own.buffer } {}).map Drain.buffer

end Heads

section Drain

variable {σ : Type} {child : PlanStage σ} {scanned : σ → Nat} {body : Drain → Row → Flow Drain}
  {fill : List Row → Row → Except Exception (List Row)}

/-- The buffers at the heads follow the fold, as long as there are rounds. -/
theorem roundHeads_feed (hbody : FillsBy body fill) :
    ∀ (feed : RowFeed) (fuel : Nat) (clock : Clock) (s : σ) (drain : Drain) (row : Row),
      child.bound s < fuel → Emits child scanned feed s →
      (roundHeads child body fuel clock s drain row).map Drain.buffer =
        foldHeads fill drain.buffer feed.rows := by
  intro feed
  induction feed with
  | stop finish mark =>
    intro fuel clock s drain row hfuel hfeed
    have hanswer := emits_iff.mp hfeed clock row
    rcases fuel with - | fuel
    · exact absurd hfuel (Nat.not_lt_zero _)
    · rw [roundHeads]
      cases finish with
      | none =>
        obtain ⟨hresult, -⟩ := hanswer
        rw [hresult]
        rfl
      | some e =>
        obtain ⟨hresult, -⟩ := hanswer
        rw [hresult]
        rfl
  | row r mark rest ih =>
    intro fuel clock s drain row hfuel hfeed
    obtain ⟨hresult, houtput, -, hrest⟩ := emits_iff.mp hfeed clock row
    have hbound := child.bound_getNext clock s row hresult
    have hround := hbody drain r
    rcases fuel with - | fuel
    · exact absurd hfuel (Nat.not_lt_zero _)
    · rw [roundHeads, hresult, Feed.rows, foldHeads, List.map_cons]
      simp only [houtput]
      cases hfill : fill drain.buffer r with
      | error e =>
        rw [hfill] at hround
        simp only at hround
        rw [hround]
        rfl
      | ok buffer =>
        rw [hfill] at hround
        obtain ⟨left, hround⟩ := hround
        rw [hround]
        exact congrArg _ (ih fuel _ _ _ _ (by omega) hrest)

/-- **The heads of a drain loop.**  Over a child that delivers `rows`, the buffers at the heads are
    the values the fold of `fill` takes. -/
theorem drainHeads_delivers (hbody : FillsBy body fill) {s : σ} {rows : List Row}
    (h : Delivers child s rows) (clock : Clock) :
    BlockingStage.drainHeads child body clock { members := { child := s, own := {} } } =
      foldHeads fill [] rows := by
  obtain ⟨hresult, -, hfeed⟩ := h clock.tick
  have hheads := roundHeads_feed hbody (.ofList 0 rows)
    (child.bound (child.open clock.tick s).stage + 1) (child.open clock.tick s).clock
    (child.open clock.tick s).stage { stats := { openCalls := 1 }, buffer := [] } {}
    (Nat.lt_succ_self _) hfeed
  rw [Feed.rows_ofList] at hheads
  rw [BlockingStage.drainHeads]
  simp only [hresult]
  exact hheads

end Drain

/-! ## The heap loop of a top-k -/

section HeapLoop

variable [StdLibrary] {σ : Type} {child : PlanStage σ} {s : σ} {rows : List Row}

/-- The buffer of a top-k between two iterations, against the rows pulled so far. -/
structure TopKStage.HeapInvariant (comparator : RowComparator) (k : Nat) (pulled buffer : List Row) :
    Prop where
  /-- No row is held twice. -/
  once : buffer.Nodup
  subset : ∀ row ∈ buffer, row ∈ pulled
  count : buffer.length = min k pulled.length
  /-- What is held comes before what is not. -/
  least : ∀ kept ∈ buffer, ∀ row ∈ pulled, row ∉ buffer → comparator.call kept row = .ok true
  /-- No row comes after its parent in the heap. -/
  heap : ∀ (i : Nat) (parent row : Row), 0 < i → buffer[(i - 1) / 2]? = some parent →
    buffer[i]? = some row → comparator.call parent row = .ok false
  /-- The front is the last of the rows held. -/
  front : ∀ front ∈ buffer.head?, ∀ kept ∈ buffer, kept ≠ front →
    comparator.call kept front = .ok true
  /-- A row was discarded only for `k` others that come before it. -/
  discarded : ∀ row ∈ pulled, row ∉ buffer →
    buffer.length = k ∧ ∀ kept ∈ buffer, comparator.call kept row = .ok true

/-- Offering comparable rows one by one establishes the invariant. -/
theorem TopKStage.heapInvariant_of_fill {columnIndex : Nat} {direction : SortDirection} {k : Nat}
    {pulled buffer : List Row} (hdistinct : DistinctOrdinals pulled)
    (hsortable : RowComparator.Sortable columnIndex (· ∈ pulled))
    (hfill : pulled.foldlM (TopKStage.fill { columnIndex, direction } k) [] = .ok buffer) :
    TopKStage.HeapInvariant { columnIndex, direction } k pulled buffer := by
  have htotal := (RowComparator.call_strictTotal hsortable).1 direction
  have hbefore : IsStrictWeakOrder Row (RowComparator.before { columnIndex, direction } false) :=
    RowComparator.before_strictWeak false
  rw [TopKStage.fill, foldlM_offer] at hfill
  obtain ⟨hnodup, hsub, hheap, hretains⟩ := offerAll_retains hbefore hdistinct.nodup
    (hdistinct.totalOn { columnIndex, direction } false)
    (RowComparator.call_agrees false _) hfill
  -- on these rows the comparator says what the order does
  have htrue : ∀ {a b : Row}, a ∈ pulled → b ∈ pulled →
      RowComparator.before { columnIndex, direction } false a b →
      RowComparator.call { columnIndex, direction } a b = .ok true := by
    intro a b ha hb hab
    obtain ⟨answer, hanswer⟩ := htotal.answers a b ha hb
    rw [hanswer, (RowComparator.call_before hanswer).mpr hab]
  have hfalse : ∀ {a b : Row}, a ∈ pulled → b ∈ pulled →
      ¬ RowComparator.before { columnIndex, direction } false a b →
      RowComparator.call { columnIndex, direction } a b = .ok false := by
    intro a b ha hb hab
    obtain ⟨answer, hanswer⟩ := htotal.answers a b ha hb
    cases answer with
    | false => exact hanswer
    | true => exact absurd ((RowComparator.call_before hanswer).mp rfl) hab
  have hleast : ∀ kept ∈ buffer, ∀ row ∈ pulled, row ∉ buffer →
      RowComparator.call { columnIndex, direction } kept row = .ok true :=
    fun kept hkept row hrow hnot => htrue (hsub kept hkept) hrow (hretains.first hkept hrow hnot)
  refine ⟨hnodup, hsub, hretains.1, hleast, ?_, ?_, ?_⟩
  · intro i parent row hpos hparent hrow
    obtain ⟨hplt, rfl⟩ := List.getElem?_eq_some_iff.mp hparent
    obtain ⟨hlt, rfl⟩ := List.getElem?_eq_some_iff.mp hrow
    exact hfalse (hsub _ (List.getElem_mem _)) (hsub _ (List.getElem_mem _)) (hheap i hlt hpos)
  · intro front hfront kept hkept hne
    rcases buffer with - | ⟨first, rest⟩
    · cases hkept
    · obtain rfl : first = front := Option.some.inj hfront
      have hlast := hheap.front_last hbefore kept hkept
      have hfirst : first ∈ pulled := hsub first List.mem_cons_self
      rcases htotal.trichotomous kept first (hsub kept hkept) hfirst hne with ⟨h, -⟩ | ⟨-, h⟩
      · exact h
      · exact absurd ((RowComparator.call_before h).mp rfl) hlast
  · intro row hrow hnot
    exact ⟨hretains.full hrow hnot, fun kept hkept => hleast kept hkept row hrow hnot⟩

/-- **The heap loop invariant.**  Over a child that delivers rows whose keys all compare, the drain
    loop of a top-k completes an iteration for every row, and between two iterations its buffer is a
    heap of the `k` first of the rows pulled so far. -/
theorem topK_heapInvariant (h : Delivers child s rows) (hdistinct : DistinctOrdinals rows)
    {columnIndex : Nat} (hsortable : RowComparator.Sortable columnIndex (· ∈ rows))
    (direction : SortDirection) (k : Nat) (clock : Clock) :
    let comparator : RowComparator := { columnIndex, direction }
    let heads := BlockingStage.drainHeads child (TopKStage.body comparator k) clock
      (TopKStage.over s)
    heads.length = rows.length + 1 ∧
      ∀ n buffer, heads[n]? = some buffer →
        TopKStage.HeapInvariant comparator k (rows.take n) buffer := by
  intro comparator heads
  have hbefore : IsStrictWeakOrder Row (comparator.before false) :=
    RowComparator.before_strictWeak false
  have hheads : heads = foldHeads (TopKStage.fill comparator k) [] rows :=
    drainHeads_delivers (TopKStage.body_fillsBy comparator k) h clock
  rw [hheads]
  constructor
  · obtain ⟨buffer, hbuffer⟩ := offerAll_total (k := k) hbefore rows [] hdistinct.nodup
      (RowComparator.call_agrees false _) (hsortable.answersOn direction) isHeap_nil
    exact length_foldHeads ((foldlM_offer comparator.call k rows []).trans hbuffer)
  · intro n buffer hbuffer
    have hsub : ∀ row ∈ rows.take n, row ∈ rows := fun row => List.mem_of_mem_take
    exact TopKStage.heapInvariant_of_fill (hdistinct.sublist (List.take_sublist n rows))
      (hsortable.mono hsub) (getElem?_foldHeads.mp hbuffer).2

end HeapLoop

/-- Three rows; the one with the long remark comes neither first nor last by the first column. -/
def remarkTable : Table where
  schema := { fields := ["rank", "remark"] }
  rows := [{ ordinal := 0, values := [.int64 2, .string "a remark that takes its room"] },
    { ordinal := 1, values := [.int64 3, .string "late"] },
    { ordinal := 2, values := [.int64 1, .string "early"] }]

theorem remarkTable_sortable : RowComparator.Sortable 0 (· ∈ remarkTable.rows) where
  distinct a b ha hb := by
    have hall : ∀ a ∈ remarkTable.rows, ∀ b ∈ remarkTable.rows, a.ordinal = b.ordinal → a = b := by
      decide
    exact hall a ha b hb
  wide := by
    have hall : ∀ a ∈ remarkTable.rows, 0 < a.values.length := by decide
    exact hall
  oneKind := by
    have hall : ∀ a ∈ remarkTable.rows, ∀ value ∈ a.values[0]?,
        value = .null ∨ value.kind = .number := by decide
    exact .inl fun a value ha hvalue => hall a ha value hvalue

theorem topK_heapInvariant_remarks :
    letI := StdLibrary.reference
    let scan := PlanStageTree.collectionScanStage remarkTable
    let comparator : RowComparator := { columnIndex := 0, direction := .kAscending }
    let heads := BlockingStage.drainHeads scan.planStage (TopKStage.body comparator 2) Clock.still
      (TopKStage.over scan.constructed)
    heads.length = 4 ∧ ∀ n buffer, heads[n]? = some buffer →
      TopKStage.HeapInvariant comparator 2 (remarkTable.rows.take n) buffer := by
  let reference : StdLibrary := StdLibrary.reference
  intro scan comparator
  have hscan : Delivers scan.planStage scan.constructed remarkTable.rows := scan.delivers rfl rfl
  have hdistinct : DistinctOrdinals remarkTable.rows := by
    show (remarkTable.rows.map Row.ordinal).Nodup
    decide
  exact topK_heapInvariant hscan hdistinct remarkTable_sortable .kAscending 2 Clock.still

end QueryLume
