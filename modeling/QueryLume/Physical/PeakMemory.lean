/-
  The peak memory a blocking stage reports.

  The counter is written once, after the drain loop, from the buffer the loop has left.  A sort
  only ever adds to its buffer, so that is the largest the buffer has been.  A top-k also throws
  rows out, and heavy rows may have come and gone by then: what it reports is the peak exactly when
  no prefix of its input has `k` first rows that weigh more than the `k` first of all
  (`peakMemory_reported`).
-/
import QueryLume.Physical.DrainLoop

namespace QueryLume

open BoundedHeap StdAlgorithms

/-! ## The first rows of an input

  Which rows a top-k ends up with, said without a heap: those that fewer than `k` others come
  before. -/

namespace RowComparator

variable {comparator : RowComparator} {k : Nat} {rows buffer : List Row}

/-- Does the comparator put `a` before `b`? -/
def precedes (comparator : RowComparator) (a b : Row) : Bool :=
  match comparator.call a b with
  | .ok answer => answer
  | .error _ => false

/-- The rows that fewer than `k` others come before. -/
def firstRows (comparator : RowComparator) (k : Nat) (rows : List Row) : List Row :=
  rows.filter fun row => rows.countP (comparator.precedes · row) < k

/-- An answer of the comparator is the answer of both orders that agree with it: a key without an
    order to another one may be put on either side of it, the comparator does not commit itself. -/
theorem before_of_precedes {a b : Row} (h : comparator.precedes a b = true) (flip : Bool) :
    comparator.before flip a b := by
  unfold precedes at h
  cases hcall : comparator.call a b with
  | error e => rw [hcall] at h; cases h
  | ok answer => rw [hcall] at h; exact (call_before hcall).mp h

/-- Rows that both orders arrange alike, the comparator does compare. -/
theorem precedes_of_both {a b : Row} (ha : comparator.columnIndex < a.values.length)
    (hb : comparator.columnIndex < b.values.length) (hne : a.ordinal ≠ b.ordinal)
    (h : ∀ flip, comparator.before flip a b) : comparator.precedes a b = true := by
  have hasymm : ∀ flip, ¬ comparator.before flip b a := fun flip hba =>
    (before_strictWeak flip).irrefl a ((before_strictWeak flip).trans a b a (h flip) hba)
  unfold precedes
  cases hcall : comparator.call a b with
  | ok answer => exact (call_before hcall).mpr (h false)
  | error e =>
    rcases opposed ha hb hne hcall with ⟨-, hopposed⟩ | ⟨hopposed, -⟩
    · exact absurd hopposed (hasymm true)
    · exact absurd hopposed (hasymm false)

variable [StdLibrary]

/-- What a heap of at most `k` rows retains are the first rows, however many were incomparable. -/
theorem firstRows_retained (hdistinct : DistinctOrdinals rows)
    (hwide : ∀ row ∈ rows, comparator.columnIndex < row.values.length)
    (hok : offerAll comparator.call k [] rows = .ok buffer) :
    buffer.Perm (comparator.firstRows k rows) := by
  obtain ⟨hnodup, hsub, hretains⟩ := offerAll_retains_both hdistinct hok
  have hasymm : ∀ {a b : Row}, comparator.before false a b → ¬ comparator.before false b a :=
    fun {a b} hab hba =>
      (before_strictWeak false).irrefl a ((before_strictWeak false).trans a b a hab hba)
  obtain ⟨hcount, discarded, hperm, hafter⟩ := hretains false
  refine (List.perm_ext_iff_of_nodup hnodup (hdistinct.nodup.filter _)).mpr fun row => ?_
  rw [List.mem_filter, decide_eq_true_iff]
  constructor
  · intro hrow
    refine ⟨hsub row hrow, ?_⟩
    -- only retained rows come before a retained one, and it does not come before itself
    have hdiscarded : discarded.countP (comparator.precedes · row) = 0 := by
      rw [List.countP_eq_zero]
      intro other hother hprecedes
      exact hasymm (hafter row hrow other hother) (before_of_precedes hprecedes false)
    have hself : ¬ comparator.precedes row row = true := fun hprecedes =>
      (before_strictWeak false).irrefl row (before_of_precedes hprecedes false)
    have hle : buffer.countP (comparator.precedes · row) ≤ buffer.length := List.countP_le_length
    have hne : buffer.countP (comparator.precedes · row) ≠ buffer.length := fun heq =>
      hself (List.countP_eq_length.mp heq row hrow)
    rw [hperm.countP_eq, List.countP_append, hdiscarded]
    omega
  · rintro ⟨hrow, hfew⟩
    by_contra hnot
    -- a discarded row has `k` retained ones before it
    have hall : ∀ kept ∈ buffer, comparator.precedes kept row = true := by
      intro kept hkept
      have hne : kept ≠ row := fun heq => hnot (heq ▸ hkept)
      exact precedes_of_both (hwide kept (hsub kept hkept)) (hwide row hrow)
        (hdistinct.ne (hsub kept hkept) hrow hne) fun flip => (hretains flip).first hkept hrow hnot
    have hfull : buffer.length = k := (hretains false).full hrow hnot
    have hkept : buffer.countP (comparator.precedes · row) = k := by
      rw [List.countP_eq_length.mpr hall, hfull]
    rw [hperm.countP_eq, List.countP_append, hkept] at hfew
    omega

end RowComparator

/-! ## What is reported

  Both stages write their counter after the loop, from the rows they hold then.  For a sort that is
  all it ever holds; for a top-k it is the last of several buffers. -/

section Reported

variable [StdLibrary] {σ : Type} {child : PlanStage σ} {s : σ} {rows : List Row}

/-- Opened by this clock, the stage reports the largest footprint its buffer had between the
    iterations of its drain loop. -/
def BlockingStage.ReportsPeak (hooks : StageHooks (ParentStage RowBuffer σ)) (child : PlanStage σ)
    (body : Drain → Row → Flow Drain) (clock : Clock)
    (this : StageObject (ParentStage RowBuffer σ)) : Prop :=
  ((drainHeads child body clock this).map approximateRowsBytes).max? =
    some (hooks.planStage.open clock this).stage.base.stats.peakMemoryBytes

/-- The same for a sort over `child`, as constructed. -/
def SortStage.ReportsPeak (child : PlanStage σ) (comparator : RowComparator) (clock : Clock)
    (s : σ) : Prop :=
  BlockingStage.ReportsPeak (SortStage.hooks child comparator) child SortStage.body clock
    (SortStage.over s)

/-- The same for a top-k over `child`, as constructed. -/
def TopKStage.ReportsPeak (child : PlanStage σ) (comparator : RowComparator) (k : Nat)
    (clock : Clock) (s : σ) : Prop :=
  BlockingStage.ReportsPeak (TopKStage.hooks child comparator k) child
    (TopKStage.body comparator k) clock (TopKStage.over s)

variable {name : String} {body : Drain → Row → Flow Drain}
  {fill : List Row → Row → Except Exception (List Row)} {comparator : RowComparator} {clock : Clock}

/-- A blocking stage that opened has sorted what its loop left, and reports what that weighs. -/
theorem blocking_open_reports (hbody : FillsBy body fill) (h : Delivers child s rows)
    (hopen : ((BlockingStage.hooks name child body comparator).planStage.open clock
      { members := { child := s, own := {} } }).result = .ok ()) :
    ∃ buffer sorted, rows.foldlM fill [] = .ok buffer ∧
      stdSort comparator.call buffer = .ok sorted ∧
      ((BlockingStage.hooks name child body comparator).planStage.open clock
        { members := { child := s, own := {} } }).stage.base.stats.peakMemoryBytes =
          approximateRowsBytes sorted := by
  let this : StageObject (ParentStage RowBuffer σ) := { members := { child := s, own := {} } }
  let hooks := BlockingStage.hooks name child body comparator
  obtain ⟨hchild, -, hfeed⟩ := h clock.tick
  have hdrain := drain_feed hbody (child.open clock.tick s).clock
    { stats := { openCalls := 1 }, buffer := [] } hfeed
  rw [Feed.rows_ofList, Feed.finish_ofList] at hdrain
  let loop := whileAdvanced child body (child.open clock.tick s).clock
    (child.open clock.tick s).stage { stats := { openCalls := 1 }, buffer := [] } {}
  have hhook : PlanStageBase.openHook hooks clock this =
      BlockingStage.sortDrained comparator
        { stats := { openCalls := 1 }, members := this.members } loop := by
    show BlockingStage.onOpen child body comparator clock.tick _ = _
    rw [BlockingStage.onOpen]
    simp only [this, hchild]
    rfl
  have hfresh : this.base.state = .kUnopened := rfl
  obtain ⟨micros, hok, herror⟩ := PlanStageBase.open_admitted hooks clock hfresh
  cases hresult : (PlanStageBase.openHook hooks clock this).result with
  | error e =>
    have hcall : (hooks.planStage.open clock this).result = .error e := by
      show (PlanStageBase.open hooks clock this).result = .error e
      rw [herror e hresult]
    rw [show (hooks.planStage.open clock this).result = _ from hopen] at hcall
    cases hcall
  | ok u =>
    have hstats : (hooks.planStage.open clock this).stage.base.stats.peakMemoryBytes =
        (PlanStageBase.openHook hooks clock this).stage.stats.peakMemoryBytes := by
      show (PlanStageBase.open hooks clock this).stage.base.stats.peakMemoryBytes = _
      rw [hok u hresult]
    rw [hhook, BlockingStage.sortDrained] at hresult
    cases hfold : rows.foldlM fill [] with
    | error e =>
      rw [hfold] at hdrain
      rw [show loop.result = _ from hdrain] at hresult
      cases hresult
    | ok buffer =>
      rw [hfold] at hdrain
      obtain ⟨hloop, hbuffer, -, -⟩ := hdrain
      have hlocals : loop.locals.buffer = buffer := hbuffer
      rw [show loop.result = _ from hloop] at hresult
      simp only [hlocals] at hresult
      cases hsort : stdSort comparator.call buffer with
      | error e => rw [hsort] at hresult; cases hresult
      | ok sorted =>
        refine ⟨buffer, sorted, rfl, hsort, hstats.trans ?_⟩
        rw [hhook, BlockingStage.sortDrained, show loop.result = _ from hloop]
        simp only [hlocals, hsort]
        rfl

/-- What it reports is the peak exactly when the buffer weighed no more at any head: the last
    head is the one that is reported, and the largest of a list is its last element when no other
    exceeds that. -/
theorem reportsPeak_iff (hbody : FillsBy body fill) (h : Delivers child s rows)
    {buffer sorted : List Row} (hfill : rows.foldlM fill [] = .ok buffer) (hperm : sorted.Perm buffer)
    (hreported : ((BlockingStage.hooks name child body comparator).planStage.open clock
      { members := { child := s, own := {} } }).stage.base.stats.peakMemoryBytes =
        approximateRowsBytes sorted) :
    BlockingStage.ReportsPeak (BlockingStage.hooks name child body comparator) child body clock
        { members := { child := s, own := {} } } ↔
      ∀ n ≤ rows.length, ∀ held, (rows.take n).foldlM fill [] = .ok held →
        approximateRowsBytes held ≤ approximateRowsBytes buffer := by
  rw [BlockingStage.ReportsPeak, hreported, approximateRowsBytes_perm hperm,
    drainHeads_delivers hbody h clock, List.max?_eq_some_iff]
  have hlast : buffer ∈ foldHeads fill [] rows :=
    List.mem_of_getElem? (getElem?_foldHeads.mpr
      ⟨Nat.le_refl _, by rw [List.take_length]; exact hfill⟩)
  constructor
  · rintro ⟨-, hmax⟩ n hn held hheld
    have hhead : held ∈ foldHeads fill [] rows :=
      List.mem_of_getElem? (getElem?_foldHeads.mpr ⟨hn, hheld⟩)
    exact hmax _ (List.mem_map_of_mem hhead)
  · intro hall
    refine ⟨List.mem_map_of_mem hlast, fun bytes hbytes => ?_⟩
    obtain ⟨held, hhead, rfl⟩ := List.mem_map.mp hbytes
    obtain ⟨n, hn⟩ := List.mem_iff_getElem?.mp hhead
    obtain ⟨hle, hheld⟩ := getElem?_foldHeads.mp hn
    exact hall n hle held hheld

/-- **Peak memory.**  A sort that opened reports the peak of its buffer, whatever rows it was given.
    A top-k that opened does so exactly when no prefix of its input has `k` first rows that weigh
    more than the `k` first of all. -/
theorem peakMemory_reported (h : Delivers child s rows) (comparator : RowComparator)
    (clock : Clock) :
    (((SortStage.hooks child comparator).planStage.open clock (SortStage.over s)).result = .ok () →
      SortStage.ReportsPeak child comparator clock s) ∧
    ∀ k, DistinctOrdinals rows → (∀ row ∈ rows, comparator.columnIndex < row.values.length) →
      ((TopKStage.hooks child comparator k).planStage.open clock (TopKStage.over s)).result =
        .ok () →
      (TopKStage.ReportsPeak child comparator k clock s ↔
        ∀ n ≤ rows.length, approximateRowsBytes (comparator.firstRows k (rows.take n)) ≤
          approximateRowsBytes (comparator.firstRows k rows)) := by
  have hbefore : IsStrictWeakOrder Row (comparator.before false) :=
    RowComparator.before_strictWeak false
  have hagree : ∀ a b answer, comparator.call a b = .ok answer →
      (answer = true ↔ comparator.before false a b) :=
    fun _ _ _ hanswer => RowComparator.call_before hanswer
  constructor
  · intro hopen
    obtain ⟨buffer, sorted, hfill, hsort, hreported⟩ :=
      blocking_open_reports SortStage.body_fillsBy h hopen
    have hperm : sorted.Perm buffer := stdSort_rearranges hbefore hagree hsort
    refine (reportsPeak_iff SortStage.body_fillsBy h hfill hperm hreported).mpr ?_
    intro n _ held hheld
    rw [SortStage.foldlM_fill] at hfill hheld
    rw [← Except.ok.inj hfill, ← Except.ok.inj hheld, List.nil_append, List.nil_append]
    exact approximateRowsBytes_take_le rows n
  · intro k hdistinct hwide hopen
    obtain ⟨buffer, sorted, hfill, hsort, hreported⟩ :=
      blocking_open_reports (TopKStage.body_fillsBy comparator k) h hopen
    have hperm : sorted.Perm buffer := stdSort_rearranges hbefore hagree hsort
    have hretained : ∀ {rows' buffer' : List Row}, rows'.Sublist rows →
        rows'.foldlM (TopKStage.fill comparator k) [] = .ok buffer' →
        approximateRowsBytes buffer' = approximateRowsBytes (comparator.firstRows k rows') := by
      intro rows' buffer' hsub hfill'
      refine approximateRowsBytes_perm (RowComparator.firstRows_retained (hdistinct.sublist hsub)
        (fun row hrow => hwide row (hsub.subset hrow)) ?_)
      rw [← foldlM_offer]
      exact hfill'
    rw [← hretained (List.Sublist.refl rows) hfill]
    refine (reportsPeak_iff (TopKStage.body_fillsBy comparator k) h hfill hperm hreported).trans ?_
    constructor
    · intro hpeak n hn
      -- the loop got this far, so it held something after `n` rows
      obtain ⟨held, hheld⟩ : ∃ held, (rows.take n).foldlM (TopKStage.fill comparator k) [] =
          .ok held := by
        rw [← List.take_append_drop n rows, List.foldlM_append] at hfill
        obtain ⟨held, hheld, -⟩ := Except.bind_eq_ok hfill
        exact ⟨held, hheld⟩
      rw [← hretained (List.take_sublist n rows) hheld]
      exact hpeak n hn held hheld
    · intro hpeak n hn held hheld
      rw [hretained (List.take_sublist n rows) hheld]
      exact hpeak n hn

end Reported

/-! ## A peak that is missed

  The failing case: a heavy row is held for a while and thrown out. -/

/-- The first row weighs most and is thrown out for the third. -/
theorem topK_peak_missed :
    letI := StdLibrary.reference
    let scan := PlanStageTree.collectionScanStage remarkTable
    let comparator : RowComparator := { columnIndex := 0, direction := .kAscending }
    ((TopKStage.hooks scan.planStage comparator 1).planStage.open Clock.still
      (TopKStage.over scan.constructed)).result = .ok () ∧
    ¬ TopKStage.ReportsPeak scan.planStage comparator 1 Clock.still scan.constructed := by
  refine ⟨rfl, fun hpeak => ?_⟩
  have hreported : some 140 = some 117 := hpeak
  cases hreported

/-- With room for two rows the first one stays. -/
theorem peakMemory_reported_remarks :
    letI := StdLibrary.reference
    let scan := PlanStageTree.collectionScanStage remarkTable
    let comparator : RowComparator := { columnIndex := 0, direction := .kAscending }
    SortStage.ReportsPeak scan.planStage comparator Clock.still scan.constructed ∧
    TopKStage.ReportsPeak scan.planStage comparator 2 Clock.still scan.constructed ∧
    ¬ TopKStage.ReportsPeak scan.planStage comparator 1 Clock.still scan.constructed := by
  let reference : StdLibrary := StdLibrary.reference
  intro scan comparator
  have hscan : Delivers scan.planStage scan.constructed remarkTable.rows := scan.delivers rfl rfl
  have hdistinct : DistinctOrdinals remarkTable.rows := by
    show (remarkTable.rows.map Row.ordinal).Nodup
    decide
  have hwide : ∀ row ∈ remarkTable.rows, comparator.columnIndex < row.values.length := by decide
  obtain ⟨sorted, hsort⟩ : ∃ sorted, stdSort comparator.call remarkTable.rows = .ok sorted :=
    ⟨_, rfl⟩
  obtain ⟨one, hone⟩ : ∃ one, select comparator.call 1 remarkTable.rows = .ok one := ⟨_, rfl⟩
  obtain ⟨two, htwo⟩ : ∃ two, select comparator.call 2 remarkTable.rows = .ok two := ⟨_, rfl⟩
  have hreported := peakMemory_reported hscan comparator Clock.still
  refine ⟨hreported.1 (sort_delivers hscan hsort Clock.still).1,
    (hreported.2 2 hdistinct hwide (topK_delivers hscan htwo Clock.still).1).mpr ?_,
    fun hpeak => ?_⟩
  · have hall : ∀ n ≤ 3, approximateRowsBytes (comparator.firstRows 2 (remarkTable.rows.take n)) ≤
        approximateRowsBytes (comparator.firstRows 2 remarkTable.rows) := by decide
    exact hall
  · have hheavy := (hreported.2 1 hdistinct hwide (topK_delivers hscan hone Clock.still).1).mp hpeak
      1 (by decide)
    revert hheavy
    decide

end QueryLume
