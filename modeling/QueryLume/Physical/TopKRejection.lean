/-
  Which rows a top-k rejects.

  A full sort throws exactly when two of its rows have keys nothing compares (`stdSort_rejects`).
  A bounded heap need not put the two side by side.  It depends on where the nulls go:

  * ascending, they order last, so a heap with room for one row ends up with a value in it, and
    among the rows there is one that value does not compare with;
  * descending, they order first, so `k` nulls fill the heap and keep it: whatever comes after the
    `k`-th null is discarded unseen, and only what came up to it can be rejected.

  `compared` is the part of the input that decides, and it is read off the input without running a
  heap. A top-k throws when its keys do not all compare (`select_rejects`); otherwise, where a sort
  would have thrown, it gives out nulls (`select_silent`).

  The first half goes by what a heap retains under both orders of `Physical/RowOrder.lean`: a row
  that clashes with some row clashes with one that is kept.  The second half follows the heap: up
  to the `k`-th null all comparisons answer, from there on the heap holds nulls only, and a null
  answers against anything.
-/
import QueryLume.Physical.Provenance
import Mathlib.Data.List.Perm.Subperm
import Mathlib.Data.List.Sort

namespace QueryLume

open BoundedHeap StdAlgorithms

namespace RowComparator

variable (comparator : RowComparator)

/-- Is a row without a sort key? -/
def hasNullKey (row : Row) : Bool := typeOf (comparator.key row) = .kNull

/-- The rows up to the `k`-th one without a key. -/
def upToNull : Nat → List Row → List Row
  | 0, _ => []
  | _ + 1, [] => []
  | k + 1, row :: rows => row :: upToNull (if comparator.hasNullKey row then k else k + 1) rows

/-- The rows a heap of at most `k` rows has to find comparable. -/
def compared (k : Nat) (rows : List Row) : List Row :=
  match comparator.direction with
  | .kAscending => if k = 0 then [] else rows
  | .kDescending => comparator.upToNull k rows

/-- The first `k` rows without a key. -/
def nullRows (k : Nat) (rows : List Row) : List Row :=
  ((rows.filter comparator.hasNullKey).insertionSort fun a b => a.ordinal ≤ b.ordinal).take k

variable {comparator}

/-- A row without a key has a null there. -/
theorem hasNullKey_iff {row : Row} :
    comparator.hasNullKey row = true ↔ (comparator.key row).kind = .null := by
  rw [hasNullKey, decide_eq_true_iff, kind_eq_null]

/-- Either there are not so many nulls, or the last of the rows is the `k`-th of them. -/
theorem upToNull_cases (k : Nat) (rows : List Row) :
    comparator.upToNull (k + 1) rows = rows ∧ (rows.filter comparator.hasNullKey).length < k + 1 ∨
      ∃ front null rest, rows = front ++ null :: rest ∧
        comparator.upToNull (k + 1) rows = front ++ [null] ∧ comparator.hasNullKey null = true ∧
        (front.filter comparator.hasNullKey).length = k := by
  induction rows generalizing k with
  | nil => exact .inl ⟨rfl, Nat.succ_pos k⟩
  | cons row rows ih =>
    rw [upToNull]
    cases hnull : comparator.hasNullKey row with
    | false =>
      have hcount : ∀ rows, ((row :: rows).filter comparator.hasNullKey).length =
          (rows.filter comparator.hasNullKey).length := by
        intro rows
        rw [List.filter_cons_of_neg (by rw [hnull]; decide)]
      rw [hcount]
      rcases ih k with ⟨hall, hfew⟩ | ⟨front, null, rest, rfl, hfront, hlast, hnulls⟩
      · exact .inl ⟨congrArg (row :: ·) hall, hfew⟩
      · exact .inr ⟨row :: front, null, rest, rfl, congrArg (row :: ·) hfront, hlast,
          (hcount front).trans hnulls⟩
    | true =>
      have hcount : ∀ rows, ((row :: rows).filter comparator.hasNullKey).length =
          (rows.filter comparator.hasNullKey).length + 1 := by
        intro rows
        rw [List.filter_cons_of_pos hnull, List.length_cons]
      rw [hcount]
      cases k with
      | zero => exact .inr ⟨[], row, rows, rfl, by rw [if_pos rfl, upToNull]; rfl, hnull, rfl⟩
      | succ k =>
        rcases ih k with ⟨hall, hfew⟩ | ⟨front, null, rest, rfl, hfront, hlast, hnulls⟩
        · exact .inl ⟨congrArg (row :: ·) hall, Nat.succ_lt_succ hfew⟩
        · exact .inr ⟨row :: front, null, rest, rfl, congrArg (row :: ·) hfront, hlast,
            (hcount front).trans (congrArg (· + 1) hnulls)⟩

/-! ## Keys that do not compare

  Of two keys that do not compare, any third one that is no null fails to compare with at least
  one.  So as long as a heap holds a value, it cannot get past such a pair. -/

/-- The comparator throws at two rows exactly when `compare` throws at their keys. -/
theorem call_error_iff {a b : Row} (ha : comparator.columnIndex < a.values.length)
    (hb : comparator.columnIndex < b.values.length) :
    (∃ e, comparator.call a b = .error e) ↔ Clash (comparator.key a) (comparator.key b) := by
  rw [call_cells ha hb, ← compare_error_iff]
  simp only [decideCells]
  split
  · rename_i hnulls
    rw [compare_error_iff]
    constructor
    · rintro ⟨e, h⟩
      cases h
    · intro h
      exact absurd (kind_eq_null.mpr hnulls.1) h.left
  · split
    · rename_i hnull
      rw [compare_error_iff]
      constructor
      · rintro ⟨e, h⟩
        cases h
      · intro h
        rcases hnull with hnull | hnull
        · exact absurd (kind_eq_null.mpr hnull) h.left
        · exact absurd (kind_eq_null.mpr hnull) h.right
    · cases compare (comparator.key a) (comparator.key b) with
      | error e => exact ⟨fun _ => ⟨e, rfl⟩, fun _ => ⟨e, rfl⟩⟩
      | ok verdict =>
        constructor
        · rintro ⟨e, h⟩
          exact absurd h (verdict_ok verdict)
        · rintro ⟨e, h⟩
          cases h

/-- **No common ground.**  A value does not compare with one of two that do not compare. -/
theorem exists_clash {a b x : Row} (hab : a ≠ b) (h : Clash (comparator.key a) (comparator.key b))
    (hx : (comparator.key x).kind ≠ .null) :
    ∃ y, (y = a ∨ y = b) ∧ x ≠ y ∧ Clash (comparator.key x) (comparator.key y) := by
  by_cases hxa : x = a
  · subst hxa
    exact ⟨b, .inr rfl, hab, h⟩
  · by_cases hclash : Clash (comparator.key x) (comparator.key a)
    · exact ⟨a, .inl rfl, hxa, hclash⟩
    · -- it is of the same kind as `a`, and compares with its kind; `b` is of another kind
      have hkind : (comparator.key x).kind = (comparator.key a).kind := by
        by_contra hne
        exact hclash ⟨hx, h.left, fun heq => absurd heq hne⟩
      have hordinary : (comparator.key x).kind ≠ .isolated := fun hisolated =>
        hclash ⟨hx, h.left, fun _ => hisolated⟩
      have hother : (comparator.key x).kind ≠ (comparator.key b).kind := by
        intro heq
        exact hordinary (hkind.trans (h.apart (hkind.symm.trans heq)))
      exact ⟨b, .inr rfl, fun hxb => hother (by rw [hxb]), hx, h.right,
        fun heq => absurd heq hother⟩

/-! ## What the heap holds

  The comparator leaves some pairs open, so it has more than one order that agrees with it; a heap
  retains the first rows of EACH of them.  Two orders that settle the open pairs in opposite ways
  are enough to find two rows that do not compare among those retained. -/

/-- Where the nulls stand in the order. -/
theorem before_null {flip : Bool} {a b : Row} (ha : comparator.hasNullKey a = false)
    (hb : comparator.hasNullKey b = true) :
    (comparator.before flip a b ↔ comparator.direction = .kAscending) ∧
      (comparator.before flip b a ↔ comparator.direction = .kDescending) := by
  have hlt : comparator.nullRank a < comparator.nullRank b := by
    rw [nullRank, nullRank, if_pos (hasNullKey_iff.mp hb),
      if_neg fun hkind => Bool.eq_false_iff.mp ha (hasNullKey_iff.mpr hkind)]
    decide
  obtain ⟨hab, hba⟩ := LexOrder.thenBy_directed_of_lt comparator.reversed
    (LexOrder.thenBy (LexOrder.directed flip comparator.kindRank) <|
      LexOrder.thenBy (LexOrder.directed flip comparator.isolatedRank) <|
      LexOrder.thenBy (LexOrder.directed comparator.reversed fun row =>
        (comparator.key row).numberRank) <|
      LexOrder.thenBy (LexOrder.directed comparator.reversed fun row => (comparator.key row).text) <|
      LexOrder.ascending Row.ordinal) hlt
  rw [before, hab, hba, reversed]
  cases comparator.direction <;> decide

section Retained

variable {k : Nat} {rows buffer : List Row} {flip : Bool}

/-- Descending, a heap with a value in it has discarded no null. -/
theorem nulls_retained (hdirection : comparator.direction = .kDescending)
    (hretains : Retains (comparator.before flip) k rows buffer) {x : Row} (hx : x ∈ buffer)
    (hvalue : comparator.hasNullKey x = false) :
    ∀ null ∈ rows, comparator.hasNullKey null = true → null ∈ buffer := by
  intro null hnull hkey
  by_contra hdiscarded
  have hbefore := hretains.first hx hnull hdiscarded
  rw [(before_null hvalue hkey).1, hdirection] at hbefore
  cases hbefore

/-- A heap that saw a value holds one: ascending always, descending while the nulls leave room. -/
theorem value_retained
    (hroom : comparator.direction = .kAscending ∧ 0 < k ∨
      (rows.filter comparator.hasNullKey).length < k)
    (hnodup : buffer.Nodup) (hsub : ∀ row ∈ buffer, row ∈ rows)
    (hretains : Retains (comparator.before flip) k rows buffer) {a : Row} (ha : a ∈ rows)
    (hvalue : comparator.hasNullKey a = false) : ∃ x ∈ buffer, comparator.hasNullKey x = false := by
  by_cases hmem : a ∈ buffer
  · exact ⟨a, hmem, hvalue⟩
  · have hlength := hretains.full ha hmem
    by_contra hnone
    have hnull : ∀ x ∈ buffer, comparator.hasNullKey x = true := by
      intro x hx
      by_contra hkey
      exact hnone ⟨x, hx, Bool.eq_false_iff.mpr hkey⟩
    rcases hroom with ⟨hdirection, hpos⟩ | hfew
    · obtain ⟨x, hx⟩ := List.exists_mem_of_length_pos (hlength ▸ hpos)
      have hbefore := hretains.first hx ha hmem
      rw [(before_null hvalue (hnull x hx)).2, hdirection] at hbefore
      cases hbefore
    · have hsubset : buffer ⊆ rows.filter comparator.hasNullKey := fun x hx =>
        List.mem_filter.mpr ⟨hsub x hx, hnull x hx⟩
      have hle := (List.Nodup.subperm hnodup hsubset).length_le
      omega

/-- A heap that retains the first rows of both orders, and a value among them, retains two rows
    that do not compare, if there are two at all. -/
theorem clash_retained (hdistinct : DistinctOrdinals rows)
    (hwide : ∀ row ∈ rows, comparator.columnIndex < row.values.length)
    (hsub : ∀ row ∈ buffer, row ∈ rows)
    (hretains : ∀ flip, Retains (comparator.before flip) k rows buffer)
    (hrows : Incomparable comparator.call rows) {x : Row} (hx : x ∈ buffer)
    (hvalue : comparator.hasNullKey x = false) :
    ∃ y ∈ buffer, x ≠ y ∧ Clash (comparator.key x) (comparator.key y) := by
  obtain ⟨a, ha, b, hb, hab, hthrows⟩ := hrows
  have hclash := (call_error_iff (hwide a ha) (hwide b hb)).mp hthrows
  have hkey : (comparator.key x).kind ≠ .null := fun hkind =>
    Bool.eq_false_iff.mp hvalue (hasNullKey_iff.mpr hkind)
  obtain ⟨y, hy, hxy, hapart⟩ := exists_clash hab hclash hkey
  have hmem : y ∈ rows := by
    rcases hy with rfl | rfl
    · exact ha
    · exact hb
  refine ⟨y, ?_, hxy, hapart⟩
  -- a discarded row comes after the value in both orders, and the two disagree about this pair
  by_contra hdiscarded
  have hfirst := fun flip => (hretains flip).first hx hmem hdiscarded
  obtain ⟨e, hthrows⟩ := (call_error_iff (hwide x (hsub x hx)) (hwide y hmem)).mpr hapart
  have hirrefl : ∀ {flip}, comparator.before flip y x → False := by
    intro flip h
    exact (before_strictWeak flip).irrefl x ((before_strictWeak flip).trans x y x (hfirst flip) h)
  rcases opposed (hwide x (hsub x hx)) (hwide y hmem) (hdistinct.ne (hsub x hx) hmem hxy) hthrows
    with ⟨-, h⟩ | ⟨h, -⟩
  · exact hirrefl h
  · exact hirrefl h

end Retained

/-! ## Rejection

  Either such a pair meets while rows are offered, or it is in the buffer at the end and the final
  sort rejects it.  Rows without a key take up room, and up to the `k`-th of them there is still
  room for a value. -/

section Selection

variable [StdAlgorithms] {k : Nat} {rows : List Row}

/-- A full sort throws exactly when two of its rows do not compare. -/
theorem stdSort_rejects (hdistinct : DistinctOrdinals rows)
    (hwide : ∀ row ∈ rows, comparator.columnIndex < row.values.length) :
    (∃ e, stdSort comparator.call rows = .error e) ↔ Incomparable comparator.call rows := by
  constructor
  · rintro ⟨e, herror⟩
    by_contra hcomparable
    obtain ⟨sorted, hsorted⟩ :=
      stdSort_total hdistinct.nodup (not_incomparable_iff.mp hcomparable)
    rw [herror] at hsorted
    cases hsorted
  · intro hrows
    cases hsort : stdSort comparator.call rows with
    | error e => exact ⟨e, rfl⟩
    | ok sorted =>
      exact absurd hrows (not_incomparable_iff.mpr (stdSort_answers hdistinct hwide hsort))

/-- The heap retains the first `k` rows of either order. -/
theorem offerAll_retains_both (hdistinct : DistinctOrdinals rows) {buffer : List Row}
    (hok : offerAll comparator.call k [] rows = .ok buffer) :
    buffer.Nodup ∧ (∀ row ∈ buffer, row ∈ rows) ∧
      ∀ flip, Retains (comparator.before flip) k rows buffer := by
  have hretains := fun flip => offerAll_retains (before_strictWeak flip) hdistinct.nodup
    (hdistinct.totalOn comparator flip) (call_agrees flip _) hok
  exact ⟨(hretains false).1, (hretains false).2.1, fun flip => (hretains flip).2.2.2⟩

/-- Where the nulls leave room, a top-k rejects what a sort rejects: the heap ends up with two rows
    that do not compare, and has to be sorted. -/
theorem select_rejects_of_room (hdistinct : DistinctOrdinals rows)
    (hwide : ∀ row ∈ rows, comparator.columnIndex < row.values.length)
    (hroom : comparator.direction = .kAscending ∧ 0 < k ∨
      (rows.filter comparator.hasNullKey).length < k)
    (hrows : Incomparable comparator.call rows) : ∃ e, select comparator.call k rows = .error e := by
  rw [select]
  cases hoffer : offerAll comparator.call k [] rows with
  | error e => exact ⟨e, rfl⟩
  | ok buffer =>
    obtain ⟨hnodup, hsub, hretains⟩ := offerAll_retains_both hdistinct hoffer
    have hdistinct' : DistinctOrdinals buffer := by
      obtain ⟨zs, hperm, hsublist⟩ := List.Nodup.subperm hnodup hsub
      exact (hdistinct.sublist hsublist).perm hperm.symm
    have hwide' : ∀ row ∈ buffer, comparator.columnIndex < row.values.length := fun row hrow =>
      hwide row (hsub row hrow)
    obtain ⟨a, ha, b, hb, hab, hthrows⟩ := hrows
    have hvalue : comparator.hasNullKey a = false := by
      rw [Bool.eq_false_iff]
      intro hkey
      exact ((call_error_iff (hwide a ha) (hwide b hb)).mp hthrows).left (hasNullKey_iff.mp hkey)
    obtain ⟨x, hx, hxvalue⟩ := value_retained hroom hnodup hsub (hretains false) ha hvalue
    obtain ⟨y, hy, hxy, hclash⟩ := clash_retained hdistinct hwide hsub hretains
      ⟨a, ha, b, hb, hab, hthrows⟩ hx hxvalue
    exact (stdSort_rejects hdistinct' hwide').mpr
      ⟨x, hx, y, hy, hxy, (call_error_iff (hwide' x hx) (hwide' y hy)).mpr hclash⟩

/-- Up to the last null there is room for one value only, and two that do not compare. -/
theorem offerAll_rejects_front (hdirection : comparator.direction = .kDescending)
    (hdistinct : DistinctOrdinals rows)
    (hwide : ∀ row ∈ rows, comparator.columnIndex < row.values.length)
    (hnulls : (rows.filter comparator.hasNullKey).length = k)
    (hrows : Incomparable comparator.call rows) :
    ∃ e, offerAll comparator.call (k + 1) [] rows = .error e := by
  cases hoffer : offerAll comparator.call (k + 1) [] rows with
  | error e => exact ⟨e, rfl⟩
  | ok buffer =>
    obtain ⟨hnodup, hsub, hretains⟩ := offerAll_retains_both hdistinct hoffer
    obtain ⟨a, ha, b, hb, hab, hthrows⟩ := hrows
    have hvalue : ∀ {row : Row}, (comparator.key row).kind ≠ .null →
        comparator.hasNullKey row = false := fun h =>
      Bool.eq_false_iff.mpr fun hkey => h (hasNullKey_iff.mp hkey)
    have hclash := (call_error_iff (hwide a ha) (hwide b hb)).mp hthrows
    obtain ⟨x, hx, hxvalue⟩ := value_retained (.inr (by omega)) hnodup hsub (hretains false) ha
      (hvalue hclash.left)
    obtain ⟨y, hy, hxy, hclash⟩ := clash_retained hdistinct hwide hsub hretains
      ⟨a, ha, b, hb, hab, hthrows⟩ hx hxvalue
    have hyvalue := hvalue hclash.right
    -- two values and `k` nulls do not fit
    have hkept := nulls_retained hdirection (hretains false) hx hxvalue
    have hfits : (x :: y :: rows.filter comparator.hasNullKey).length ≤ buffer.length := by
      refine (List.Nodup.subperm ?_ ?_).length_le
      · have hnot : ∀ {row : Row}, comparator.hasNullKey row = false →
            row ∉ rows.filter comparator.hasNullKey := by
          intro row hrow hmem
          rw [(List.mem_filter.mp hmem).2] at hrow
          cases hrow
        refine List.nodup_cons.mpr ⟨?_, List.nodup_cons.mpr
          ⟨hnot hyvalue, hdistinct.nodup.filter _⟩⟩
        rw [List.mem_cons]
        rintro (h | h)
        · exact hxy h
        · exact hnot hxvalue h
      · intro row hrow
        rcases List.mem_cons.mp hrow with rfl | hrow
        · exact hx
        · rcases List.mem_cons.mp hrow with rfl | hrow
          · exact hy
          · exact hkept row (List.mem_filter.mp hrow).1 (List.mem_filter.mp hrow).2
    have hlength := (hretains false).1
    simp only [List.length_cons] at hfits
    omega

/-- **Rejection.**  A top-k throws when two of the rows it has to find comparable are not. -/
theorem select_rejects (hdistinct : DistinctOrdinals rows)
    (hwide : ∀ row ∈ rows, comparator.columnIndex < row.values.length)
    (h : Incomparable comparator.call (comparator.compared k rows)) :
    ∃ e, select comparator.call k rows = .error e := by
  have hempty : ¬ Incomparable comparator.call [] := by
    rintro ⟨a, ha, -⟩
    cases ha
  unfold compared at h
  cases k with
  | zero =>
    cases hdirection : comparator.direction with
    | kAscending => rw [hdirection] at h; exact absurd h hempty
    | kDescending => simp only [hdirection, upToNull] at h; exact absurd h hempty
  | succ k =>
    cases hdirection : comparator.direction with
    | kAscending =>
      rw [hdirection] at h
      exact select_rejects_of_room hdistinct hwide (.inl ⟨hdirection, k.succ_pos⟩) h
    | kDescending =>
      simp only [hdirection] at h
      rcases upToNull_cases k rows with ⟨hall, hfew⟩ | ⟨front, null, rest, hrows, hfront, hlast, hnulls⟩
      · rw [hall] at h
        exact select_rejects_of_room hdistinct hwide (.inr hfew) h
      · rw [hfront] at h
        have hsublist : front.Sublist rows := hrows ▸ List.sublist_append_left _ _
        -- the last null compares with everything
        have hincomparable : Incomparable comparator.call front := by
          obtain ⟨a, ha, b, hb, hab, hthrows⟩ := h
          have hmem : ∀ {row : Row}, row ∈ front ++ [null] → row ∈ rows := by
            intro row hrow
            rw [hrows, List.append_cons]
            exact List.mem_append_left _ hrow
          have hclash := (call_error_iff (hwide a (hmem ha)) (hwide b (hmem hb))).mp hthrows
          have hkept : ∀ {row : Row}, row ∈ front ++ [null] → (comparator.key row).kind ≠ .null →
              row ∈ front := by
            intro row hrow hkind
            rcases List.mem_append.mp hrow with hrow | hrow
            · exact hrow
            · rw [List.mem_singleton.mp hrow] at hkind
              exact absurd (hasNullKey_iff.mp hlast) hkind
          exact ⟨a, hkept ha hclash.left, b, hkept hb hclash.right, hab, hthrows⟩
        obtain ⟨e, herror⟩ := offerAll_rejects_front hdirection (hdistinct.sublist hsublist)
          (fun row hrow => hwide row (hsublist.subset hrow)) hnulls hincomparable
        refine ⟨e, ?_⟩
        rw [select, hrows, offerAll_append, herror]
        rfl

/-! ## Silence

  Descending, nulls come first.  Once `k` of them have been offered the heap holds nothing else,
  answers every newcomer without comparing values, and its final sort compares ordinals alone. -/

omit [StdAlgorithms] in
/-- The comparator answers wherever one of the two keys is null. -/
theorem call_of_null {a b : Row} (ha : comparator.columnIndex < a.values.length)
    (hb : comparator.columnIndex < b.values.length)
    (hnull : comparator.hasNullKey a = true ∨ comparator.hasNullKey b = true) :
    ∃ answer, comparator.call a b = .ok answer := by
  cases hcall : comparator.call a b with
  | ok answer => exact ⟨answer, rfl⟩
  | error e =>
    have hclash := (call_error_iff ha hb).mp ⟨e, hcall⟩
    rcases hnull with hnull | hnull
    · exact absurd (hasNullKey_iff.mp hnull) hclash.left
    · exact absurd (hasNullKey_iff.mp hnull) hclash.right

/-- **The step lemma.**  Descending, a heap full of nulls answers every newcomer, and is full of
    nulls afterwards. -/
theorem offer_nulls (hdirection : comparator.direction = .kDescending) {buffer : List Row} {row : Row}
    (hwide : ∀ x ∈ row :: buffer, comparator.columnIndex < x.values.length)
    (hnodup : (row :: buffer).Nodup) (hheap : IsHeap (comparator.before false) buffer)
    (hnulls : ∀ x ∈ buffer, comparator.hasNullKey x = true) (hfull : buffer.length = k + 1) :
    ∃ buffer', offer comparator.call (k + 1) buffer row = .ok buffer' ∧
      IsHeap (comparator.before false) buffer' ∧ buffer'.Nodup ∧ (∀ x ∈ buffer', x ∈ row :: buffer) ∧
      (∀ x ∈ buffer', comparator.hasNullKey x = true) ∧ buffer'.length = k + 1 := by
  have hagree : Agrees comparator.call (comparator.before false) (· ∈ row :: buffer) :=
    call_agrees false _
  have hanswers : ∀ a ∈ row :: buffer, ∀ b ∈ row :: buffer, a ≠ b →
      ∃ answer, comparator.call a b = .ok answer := by
    intro a ha b hb hab
    refine call_of_null (hwide a ha) (hwide b hb) ?_
    rcases List.mem_cons.mp ha with rfl | ha
    · rcases List.mem_cons.mp hb with rfl | hb
      · exact absurd rfl hab
      · exact .inr (hnulls b hb)
    · exact .inl (hnulls a ha)
  obtain ⟨buffer', hoffer⟩ := offer_total (k := k + 1) (before_strictWeak false) hnodup hagree hheap
    hanswers
  obtain ⟨hoffered, hheap'⟩ := offer_cases (before_strictWeak false) hnodup hagree hheap hoffer
  refine ⟨buffer', hoffer, hheap', hoffered.nodup hnodup, hoffered.subset, ?_⟩
  cases hoffered with
  | skipped hk same => cases hk
  | grown room perm => omega
  | rejected front rest shape full worse same => exact same ▸ ⟨hnulls, hfull⟩
  | replaced front rest shape full better perm =>
    subst shape
    have hfront : comparator.hasNullKey front = true := hnulls front List.mem_cons_self
    -- only a null orders before a null
    have hrow : comparator.hasNullKey row = true := by
      by_contra hvalue
      have hne : row ≠ front := fun heq =>
        (List.nodup_cons.mp hnodup).1 (heq ▸ List.mem_cons_self)
      have hbefore := (hagree row front List.mem_cons_self
        (List.mem_cons_of_mem _ List.mem_cons_self) hne true better).mp rfl
      rw [(before_null (Bool.eq_false_iff.mpr hvalue) hfront).1, hdirection] at hbefore
      cases hbefore
    constructor
    · intro x hx
      rcases List.mem_cons.mp (perm.mem_iff.mp hx) with rfl | hx
      · exact hrow
      · exact hnulls x (List.mem_cons_of_mem _ hx)
    · rw [perm.length_eq, List.length_cons, ← List.length_cons (a := front), hfull]

/-- **The run lemma.**  From then on nothing is rejected, and nothing but nulls is retained. -/
theorem offerAll_nulls (hdirection : comparator.direction = .kDescending) : ∀ {buffer : List Row},
    (∀ x ∈ buffer ++ rows, comparator.columnIndex < x.values.length) → (buffer ++ rows).Nodup →
    IsHeap (comparator.before false) buffer → (∀ x ∈ buffer, comparator.hasNullKey x = true) →
    buffer.length = k + 1 → ∃ result, offerAll comparator.call (k + 1) buffer rows = .ok result ∧
      ∀ x ∈ result, comparator.hasNullKey x = true := by
  induction rows with
  | nil =>
    intro buffer _ _ _ hnulls _
    exact ⟨buffer, rfl, hnulls⟩
  | cons row rows ih =>
    intro buffer hwide hnodup hheap hnulls hfull
    have hperm : (buffer ++ row :: rows).Perm ((row :: buffer) ++ rows) := List.perm_middle
    have hnodup' : ((row :: buffer) ++ rows).Nodup := hnodup.perm hperm
    have hwide' : ∀ x ∈ (row :: buffer) ++ rows, comparator.columnIndex < x.values.length := fun x hx =>
      hwide x (hperm.mem_iff.mpr hx)
    obtain ⟨hfresh, hrows, hdisjoint⟩ := List.nodup_append.mp hnodup'
    obtain ⟨buffer', hoffer, hheap', hbuffer', hsub, hnulls', hfull'⟩ := offer_nulls hdirection
      (fun x hx => hwide' x (List.mem_append_left _ hx)) hfresh hheap hnulls hfull
    have hleft : (buffer' ++ rows).Nodup :=
      List.nodup_append.mpr ⟨hbuffer', hrows, fun a ha b hb => hdisjoint a (hsub a ha) b hb⟩
    have hwideLeft : ∀ x ∈ buffer' ++ rows, comparator.columnIndex < x.values.length := by
      intro x hx
      rcases List.mem_append.mp hx with hx | hx
      · exact hwide' x (List.mem_append_left _ (hsub x hx))
      · exact hwide' x (List.mem_append_right _ hx)
    rw [offerAll, hoffer]
    exact ih hwideLeft hleft hheap' hnulls' hfull'

/-- Descending, a heap offered rows up to the `k`-th null, comparable ones, holds the nulls. -/
theorem offerAll_front (hdirection : comparator.direction = .kDescending)
    (hdistinct : DistinctOrdinals rows) (hanswers : AnswersOn comparator.call rows)
    (hnulls : (rows.filter comparator.hasNullKey).length = k + 1) :
    ∃ buffer, offerAll comparator.call (k + 1) [] rows = .ok buffer ∧
      IsHeap (comparator.before false) buffer ∧ buffer.Nodup ∧ (∀ x ∈ buffer, x ∈ rows) ∧
      (∀ x ∈ buffer, comparator.hasNullKey x = true) ∧ buffer.length = k + 1 := by
  obtain ⟨buffer, hoffer⟩ := offerAll_total (k := k + 1) (before_strictWeak false) rows []
    hdistinct.nodup (call_agrees false _) hanswers isHeap_nil
  obtain ⟨hnodup, hsub, hheap, hretains⟩ := offerAll_retains (before_strictWeak false)
    hdistinct.nodup (hdistinct.totalOn comparator false) (call_agrees false _) hoffer
  have hlength : buffer.length = k + 1 := by
    rw [hretains.1]
    have := List.length_filter_le comparator.hasNullKey rows
    omega
  refine ⟨buffer, hoffer, hheap, hnodup, hsub, ?_, hlength⟩
  intro x hx
  by_contra hvalue
  have hkept := nulls_retained hdirection hretains hx (Bool.eq_false_iff.mpr hvalue)
  -- a value and `k` nulls do not fit
  have hfits : (x :: rows.filter comparator.hasNullKey).length ≤ buffer.length := by
    refine (List.Nodup.subperm (List.nodup_cons.mpr ⟨?_, hdistinct.nodup.filter _⟩) ?_).length_le
    · intro hmem
      exact hvalue (List.mem_filter.mp hmem).2
    · intro row hrow
      rcases List.mem_cons.mp hrow with rfl | hrow
      · exact hx
      · exact hkept row (List.mem_filter.mp hrow).1 (List.mem_filter.mp hrow).2
  rw [List.length_cons, hnulls, hlength] at hfits
  omega

omit [StdAlgorithms] in
/-- Nulls are ordered by their ordinals. -/
theorem before_nulls {flip : Bool} {a b : Row} (ha : comparator.hasNullKey a = true)
    (hb : comparator.hasNullKey b = true) : comparator.before flip a b ↔ a.ordinal < b.ordinal := by
  have hkind := hasNullKey_iff.mp ha
  have hkey : comparator.key a = comparator.key b :=
    (Value.eq_null_of_kind hkind).trans (Value.eq_null_of_kind (hasNullKey_iff.mp hb)).symm
  rw [before_of_kind_eq (by rw [hkey]) (by rw [hkind]; decide),
    LexOrder.thenBy_directed_of_eq _ (by rw [hkey]), LexOrder.thenBy_directed_of_eq _ (by rw [hkey])]
  rfl

/-- Nulls retained ahead of the others, and sorted, are the first nulls. -/
theorem stdSort_nulls (hdistinct : DistinctOrdinals rows)
    (hwide : ∀ row ∈ rows, comparator.columnIndex < row.values.length) {buffer : List Row}
    (hnodup : buffer.Nodup) (hsub : ∀ x ∈ buffer, x ∈ rows)
    (hretains : Retains (comparator.before false) k rows buffer) (hfull : buffer.length = k)
    (hnulls : ∀ x ∈ buffer, comparator.hasNullKey x = true) :
    stdSort comparator.call buffer = .ok (comparator.nullRows k rows) := by
  let ordered := fun a b : Row => a.ordinal ≤ b.ordinal
  obtain ⟨-, discarded, hperm, hafter⟩ := hretains
  have hanswers : AnswersOn comparator.call buffer := fun a ha b hb _ =>
    call_of_null (hwide a (hsub a ha)) (hwide b (hsub b hb)) (.inl (hnulls a ha))
  obtain ⟨sorted, hsort⟩ := stdSort_total hnodup hanswers
  obtain ⟨hsperm, hsorted⟩ :=
    stdSort_sorted (before_strictWeak false) hnodup (call_agrees false _) hsort
  -- what is left of the nulls comes after the retained ones
  have hall : (rows.filter comparator.hasNullKey).Perm
      (buffer ++ discarded.filter comparator.hasNullKey) := by
    have h := hperm.filter comparator.hasNullKey
    rwa [List.filter_append, List.filter_eq_self.mpr hnulls] at h
  let others := (discarded.filter comparator.hasNullKey).insertionSort ordered
  have hothers : others.Perm (discarded.filter comparator.hasNullKey) := List.perm_insertionSort _ _
  have hnull : ∀ {x : Row}, x ∈ rows.filter comparator.hasNullKey → comparator.hasNullKey x = true :=
    fun hx => (List.mem_filter.mp hx).2
  have hjoin : sorted ++ others = (rows.filter comparator.hasNullKey).insertionSort ordered := by
    have hpermAll : (sorted ++ others).Perm (rows.filter comparator.hasNullKey) :=
      (hsperm.append hothers).trans hall.symm
    have hinsertion := List.perm_insertionSort ordered (rows.filter comparator.hasNullKey)
    have hascending : ∀ {xs : List Row}, (∀ x ∈ xs, comparator.hasNullKey x = true) →
        xs.Pairwise ordered → IsSorted (comparator.before false) xs := by
      intro xs hxs hpairwise
      refine List.Pairwise.imp_of_mem ?_ hpairwise
      intro a b ha hb hle
      rw [before_nulls (hxs b hb) (hxs a ha)]
      exact Nat.not_lt.mpr hle
    refine eq_of_isSorted (comparator.before false) ?_ (hpermAll.trans hinsertion.symm) ?_ ?_
    · intro a ha b hb hab
      have hmem : ∀ {x}, x ∈ (rows.filter comparator.hasNullKey).insertionSort ordered → x ∈ rows :=
        fun hx => (List.mem_filter.mp (hinsertion.mem_iff.mp hx)).1
      exact before_total false (hdistinct.ne (hmem ha) (hmem hb) hab)
    · exact hascending (fun x hx => hnull (hinsertion.mem_iff.mp hx))
        (List.pairwise_insertionSort ordered _)
    · refine List.pairwise_append.mpr ⟨hsorted, ?_, ?_⟩
      · exact hascending (fun x hx => (List.mem_filter.mp (hothers.mem_iff.mp hx)).2)
          (List.pairwise_insertionSort ordered _)
      · intro a ha b hb hba
        have hab := hafter a (hsperm.mem_iff.mp ha) b (List.mem_filter.mp (hothers.mem_iff.mp hb)).1
        exact (before_strictWeak false).irrefl a ((before_strictWeak false).trans a b a hab hba)
  rw [hsort, nullRows, ← hjoin, List.take_left' (hsperm.length_eq.trans hfull)]

/-- **Silence.**  Where it finds those rows comparable, but a sort would not have found all rows so,
    a top-k gives out the first rows without a key. -/
theorem select_silent (hdistinct : DistinctOrdinals rows)
    (hwide : ∀ row ∈ rows, comparator.columnIndex < row.values.length)
    (hcompared : ¬ Incomparable comparator.call (comparator.compared k rows))
    (hrows : Incomparable comparator.call rows) :
    select comparator.call k rows = .ok (comparator.nullRows k rows) := by
  cases k with
  | zero =>
    have hanswers : AnswersOn comparator.call [] := by rintro a ⟨⟩
    have hstrict : IsStrictWeakOrder Row (comparator.before false) := before_strictWeak false
    obtain ⟨sorted, hsort⟩ := stdSort_total List.nodup_nil hanswers
    obtain ⟨hperm, -⟩ := stdSort_sorted hstrict List.nodup_nil (call_agrees false _) hsort
    rw [select, offerAll_zero, nullRows, List.take_zero]
    rw [hperm.eq_nil] at hsort
    exact hsort
  | succ k =>
    cases hdirection : comparator.direction with
    | kAscending =>
      simp only [compared, hdirection, Nat.succ_ne_zero, if_false] at hcompared
      exact absurd hrows hcompared
    | kDescending =>
      simp only [compared, hdirection] at hcompared
      rcases upToNull_cases k rows with ⟨hall, -⟩ | ⟨front, null, rest, hsplit, hfront, hlast, hnulls⟩
      · rw [hall] at hcompared
        exact absurd hrows hcompared
      · rw [hfront, not_incomparable_iff] at hcompared
        have happend : rows = (front ++ [null]) ++ rest := by rw [hsplit, List.append_cons]
        have hsublist : (front ++ [null]).Sublist rows := happend ▸ List.sublist_append_left _ _
        have hcount : ((front ++ [null]).filter comparator.hasNullKey).length = k + 1 := by
          rw [List.filter_append, List.filter_cons_of_pos hlast, List.length_append, hnulls]
          rfl
        obtain ⟨held, hheld, hheap, hheldNodup, hheldSub, hheldNulls, hheldFull⟩ :=
          offerAll_front hdirection (hdistinct.sublist hsublist) hcompared hcount
        have hnodup : (held ++ rest).Nodup := by
          have h := hdistinct.nodup
          rw [happend] at h
          obtain ⟨-, hrest, hdisjoint⟩ := List.nodup_append.mp h
          exact List.nodup_append.mpr
            ⟨hheldNodup, hrest, fun a ha b hb => hdisjoint a (hheldSub a ha) b hb⟩
        have hmem : ∀ x ∈ held ++ rest, x ∈ rows := by
          intro x hx
          rw [happend]
          rcases List.mem_append.mp hx with hx | hx
          · exact List.mem_append_left _ (hheldSub x hx)
          · exact List.mem_append_right _ hx
        obtain ⟨buffer, hrest, hbufferNulls⟩ := offerAll_nulls hdirection
          (fun x hx => hwide x (hmem x hx)) hnodup hheap hheldNulls hheldFull
        have hoffer : offerAll comparator.call (k + 1) [] rows = .ok buffer := by
          rw [happend, offerAll_append, hheld]
          exact hrest
        obtain ⟨hbufferNodup, hbufferSub, hretains⟩ := offerAll_retains_both hdistinct hoffer
        have hfull : buffer.length = k + 1 := by
          have hlength := hsublist.length_le
          rw [(hretains false).1]
          have := List.length_filter_le comparator.hasNullKey (front ++ [null])
          omega
        rw [select, hoffer]
        exact stdSort_nulls hdistinct hwide hbufferNodup hbufferSub (hretains false) hfull hbufferNulls

end Selection

end RowComparator

end QueryLume
