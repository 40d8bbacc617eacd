/-
  The order behind the row comparator.

  1. **The difficulty** — the comparator answers about some pairs of rows and throws about others,
     so it is no order, and what the library promises of `sort` it promises for orders.

  2. **The idea** — there ARE strict weak orders that agree with the comparator wherever it answers
     (`before`, `call_agrees`), and two of them disagree about every pair it throws at (`opposed`):
     which kind of value comes first, and which of two values nothing compares with, is open, and
     the two orders settle it oppositely (`flip`).

  3. **The crux (`stdSort_answers`)** — a sort that returned has arranged its rows by both orders
     at once, so there is no pair about which they disagree: it has only been given rows that are
     all comparable.  A single order could not have been found out.

  4. **Total on good rows** — where the keys of a set of rows are nulls, and besides only numbers
     other than NaN or only strings, the comparator throws at no two of them and is a strict total
     order (`call_strictTotal`), in either direction, with the ordinals as the last word.
-/
import QueryLume.Data.ValueOrder
import QueryLume.Foundation.InsertionSort
import QueryLume.Foundation.LexOrder
import QueryLume.Physical.RowComparator

namespace QueryLume

open LexOrder StdAlgorithms

namespace RowComparator

variable (comparator : RowComparator)

/-- The cell a row is sorted by. -/
def key (row : Row) : Value := row.values[comparator.columnIndex]?.getD .null

/-- Descending exchanges the operands. -/
def reversed : Bool := comparator.direction == .kDescending

/-- Nulls stand at one end. -/
def nullRank (row : Row) : Nat := if (comparator.key row).kind = .null then 1 else 0

/-- The place of a kind of key: nulls at one end, and the kinds nothing compares in an order of
    their own. -/
def kindRank (row : Row) : Nat :=
  match (comparator.key row).kind with
  | .number => 0
  | .string => 1
  | .isolated => 2
  | .null => 3

/-- Tells apart two rows whose keys compare with nothing. -/
def isolatedRank (row : Row) : Nat :=
  if (comparator.key row).kind = .isolated then row.ordinal + 1 else 0

/-- An order that agrees with the comparator; `flip` is how it settles what the comparator leaves
    open. -/
def before (flip : Bool) : Row → Row → Prop :=
  thenBy (directed comparator.reversed comparator.nullRank) <|
  thenBy (directed flip comparator.kindRank) <|
  thenBy (directed flip comparator.isolatedRank) <|
  thenBy (directed comparator.reversed fun row => (comparator.key row).numberRank) <|
  thenBy (directed comparator.reversed fun row => (comparator.key row).text) <|
  ascending Row.ordinal

variable {comparator}

/-- Either order is a strict weak order. -/
theorem before_strictWeak (flip : Bool) : IsStrictWeakOrder Row (comparator.before flip) :=
  thenBy_strictWeak (directed_strictWeak _ _) <|
  thenBy_strictWeak (directed_strictWeak _ _) <|
  thenBy_strictWeak (directed_strictWeak _ _) <|
  thenBy_strictWeak (directed_strictWeak _ _) <|
  thenBy_strictWeak (directed_strictWeak _ _) <|
  ascending_strictWeak _

/-- Rows with different ordinals are never tied. -/
theorem before_total (flip : Bool) {a b : Row} (h : a.ordinal ≠ b.ordinal) :
    comparator.before flip a b ∨ comparator.before flip b a :=
  thenBy_directed_total <| thenBy_directed_total <| thenBy_directed_total <|
  thenBy_directed_total <| thenBy_directed_total <| Nat.lt_or_gt_of_ne h

/-! ## Agreement

  Where the comparator answers it answers as an order does.  The two orders `before false` and
  `before true` put values in the same order, nulls too, and differ in how they arrange keys that
  do not compare. -/

/-- The order on rows of the same kind, null and comparable ones. -/
theorem before_of_kind_eq {flip : Bool} {a b : Row}
    (hkind : (comparator.key a).kind = (comparator.key b).kind)
    (hcomparable : (comparator.key a).kind ≠ .isolated) :
    comparator.before flip a b ↔
      thenBy (directed comparator.reversed fun row => (comparator.key row).numberRank)
        (thenBy (directed comparator.reversed fun row => (comparator.key row).text)
          (ascending Row.ordinal)) a b := by
  have hb : (comparator.key b).kind ≠ .isolated := hkind ▸ hcomparable
  have hnull : comparator.nullRank a = comparator.nullRank b := by rw [nullRank, nullRank, hkind]
  have hrank : comparator.kindRank a = comparator.kindRank b := by rw [kindRank, kindRank, hkind]
  have hisolated : comparator.isolatedRank a = comparator.isolatedRank b := by
    rw [isolatedRank, isolatedRank, if_neg hcomparable, if_neg hb]
  unfold before
  rw [thenBy_directed_of_eq _ hnull, thenBy_directed_of_eq _ hrank, thenBy_directed_of_eq _ hisolated]

/-- What the comparator answers about two cells, from the verdict of a linear order on them. -/
theorem verdict {β : Type} [LinearOrder β] {f : Row → β} {a b : Row} {answer : Bool}
    (h : (match (.ok (orderOf (f a) (f b)) : Except Exception CompareResult) with
      | .error e => .error e
      | .ok .kEqual => .ok (decide (a.ordinal < b.ordinal))
      | .ok r =>
        .ok (if comparator.direction = .kAscending then r == .kLess else r == .kGreater)) =
      (.ok answer : Except Exception Bool)) :
    answer = true ↔ thenBy (directed comparator.reversed f) (ascending Row.ordinal) a b := by
  rcases lt_trichotomy (f a) (f b) with hlt | heq | hgt
  · rw [orderOf_lt hlt] at h
    rw [(thenBy_directed_of_lt _ _ hlt).1, ← Except.ok.inj h, reversed]
    cases comparator.direction <;> simp
  · rw [orderOf_eq_kEqual.mpr heq] at h
    rw [thenBy_directed_of_eq _ heq, ← Except.ok.inj h]
    exact decide_eq_true_iff
  · rw [orderOf_gt hgt] at h
    rw [(thenBy_directed_of_lt _ _ hgt).2, ← Except.ok.inj h, reversed]
    cases comparator.direction <;> simp

/-- Where `decideCells` answers, it answers as the orders do. -/
theorem decideCells_before {flip : Bool} {a b : Row} {answer : Bool}
    (h : decideCells comparator.direction a.ordinal b.ordinal (comparator.key a) (comparator.key b) =
      .ok answer) : answer = true ↔ comparator.before flip a b := by
  have hrank : ∀ row, comparator.nullRank row = if (comparator.key row).kind = .null then 1 else 0 :=
    fun _ => rfl
  simp only [decideCells, ← kind_eq_null] at h
  by_cases hanull : (comparator.key a).kind = .null <;>
    by_cases hbnull : (comparator.key b).kind = .null
  · -- two nulls: the ordinals decide
    have hkey : comparator.key a = comparator.key b :=
      (Value.eq_null_of_kind hanull).trans (Value.eq_null_of_kind hbnull).symm
    rw [if_pos ⟨hanull, hbnull⟩] at h
    rw [← Except.ok.inj h, before_of_kind_eq (by rw [hkey]) (by rw [hanull]; decide),
      thenBy_directed_of_eq _ (by rw [hkey]), thenBy_directed_of_eq _ (by rw [hkey])]
    exact decide_eq_true_iff
  · -- a null and a value: the direction decides
    have hlt : comparator.nullRank b < comparator.nullRank a := by
      rw [hrank, hrank, if_pos hanull, if_neg hbnull]; decide
    rw [if_neg (fun h => hbnull h.2), if_pos (.inl hanull)] at h
    rw [before, (thenBy_directed_of_lt _ _ hlt).2, ← Except.ok.inj h, reversed]
    cases comparator.direction <;> simp [hanull, hbnull]
  · have hlt : comparator.nullRank a < comparator.nullRank b := by
      rw [hrank, hrank, if_neg hanull, if_pos hbnull]; decide
    rw [if_neg (fun h => hanull h.1), if_pos (.inr hbnull)] at h
    rw [before, (thenBy_directed_of_lt _ _ hlt).1, ← Except.ok.inj h, reversed]
    cases comparator.direction <;> simp [hanull, hbnull]
  · -- two values: `compare` decides
    rw [if_neg (fun h => hanull h.1), if_neg (fun h => h.elim hanull hbnull)] at h
    have hcompared := compare_cases (comparator.key a) (comparator.key b)
    generalize compare (comparator.key a) (comparator.key b) = outcome at h hcompared
    cases hcompared with
    | unordered null => exact absurd null (not_or.mpr ⟨hanull, hbnull⟩)
    | numbers left right =>
      rw [before_of_kind_eq (left.trans right.symm) (by rw [left]; decide),
        verdict (f := fun row => (comparator.key row).numberRank) h]
      refine thenBy_congr (thenBy_directed_of_eq _ ?_).symm
      rw [Value.text_of_number left, Value.text_of_number right]
    | strings left right =>
      have hrank : (comparator.key a).numberRank = (comparator.key b).numberRank := by
        rw [Value.numberRank_of_string left, Value.numberRank_of_string right]
      rw [before_of_kind_eq (left.trans right.symm) (by rw [left]; decide),
        thenBy_directed_of_eq (fun row => (comparator.key row).numberRank) hrank]
      exact verdict (f := fun row => (comparator.key row).text) h
    | error e => cases h

/-- A cell that was read is the key. -/
theorem key_of_cell {row : Row} {value : Value} (h : row.cell comparator.columnIndex = .ok value) :
    value = comparator.key row := by
  rw [Row.cell] at h
  rw [key]
  cases hcell : row.values[comparator.columnIndex]? with
  | none => rw [hcell] at h; cases h
  | some value' => rw [hcell] at h; exact (Except.ok.inj h).symm

/-- The comparator of two rows that have the column looks at the two keys and the ordinals. -/
theorem call_cells {a b : Row} (ha : comparator.columnIndex < a.values.length)
    (hb : comparator.columnIndex < b.values.length) :
    comparator.call a b = decideCells comparator.direction a.ordinal b.ordinal (comparator.key a)
      (comparator.key b) := by
  have hcell : ∀ {row : Row}, comparator.columnIndex < row.values.length →
      row.cell comparator.columnIndex = .ok (comparator.key row) := fun {row} h => by
    rw [Row.cell, key, List.getElem?_eq_getElem h]
    rfl
  rw [call, hcell ha, hcell hb]

/-- **Agreement.**  The comparator answers, where it answers, as each of the orders does. -/
theorem call_before {flip : Bool} {a b : Row} {answer : Bool}
    (h : comparator.call a b = .ok answer) : answer = true ↔ comparator.before flip a b := by
  rw [call] at h
  cases ha : a.cell comparator.columnIndex with
  | error e => rw [ha] at h; cases h
  | ok va =>
    rw [ha] at h
    cases hb : b.cell comparator.columnIndex with
    | error e => rw [hb] at h; cases h
    | ok vb =>
      rw [hb] at h
      obtain rfl := key_of_cell ha
      obtain rfl := key_of_cell hb
      exact decideCells_before h

/-- **Agreement.**  Where the comparator answers, either order answers the same. -/
theorem call_agrees (flip : Bool) (S : Row → Prop) :
    Agrees comparator.call (comparator.before flip) S :=
  fun _ _ _ _ _ _ h => call_before h

/-! ## Opposition

  So a list that is sorted under both orders has no two rows that do not compare.  That is how it
  is known, of a sort that returned, that the comparator answers about every two of its rows,
  whichever ones it was asked about. -/

theorem verdict_ok {aOrdinal bOrdinal : Nat} {direction : SortDirection} (r : CompareResult)
    {e : Exception} :
    (match (.ok r : Except Exception CompareResult) with
      | .error e => .error e
      | .ok .kEqual => .ok (decide (aOrdinal < bOrdinal))
      | .ok r => .ok (if direction = .kAscending then r == .kLess else r == .kGreater)) ≠
      (.error e : Except Exception Bool) := by
  cases r <;> intro h <;> cases h

/-- Keys of one rank are of one kind. -/
theorem kind_of_kindRank {a b : Row} (h : comparator.kindRank a = comparator.kindRank b) :
    (comparator.key a).kind = (comparator.key b).kind := by
  unfold kindRank at h
  generalize (comparator.key a).kind = kind at h ⊢
  generalize (comparator.key b).kind = kind' at h ⊢
  cases kind <;> cases kind' <;> first | rfl | cases h

/-- **Opposition.**  Two rows the comparator throws at are ordered oppositely by the two orders. -/
theorem opposed {a b : Row} {e : Exception} (ha : comparator.columnIndex < a.values.length)
    (hb : comparator.columnIndex < b.values.length) (hne : a.ordinal ≠ b.ordinal)
    (h : comparator.call a b = .error e) :
    (comparator.before false a b ∧ comparator.before true b a) ∨
      (comparator.before false b a ∧ comparator.before true a b) := by
  rw [call_cells ha hb] at h
  simp only [decideCells, ← kind_eq_null] at h
  split at h
  · cases h
  · split at h
    · cases h
    · have hcompared := compare_cases (comparator.key a) (comparator.key b)
      generalize compare (comparator.key a) (comparator.key b) = outcome at h hcompared
      cases hcompared with
      | unordered null => cases h
      | numbers left right => exact absurd h (verdict_ok _)
      | strings left right => exact absurd h (verdict_ok _)
      | error e left right apart =>
        have hnull : comparator.nullRank a = comparator.nullRank b := by
          rw [nullRank, nullRank, if_neg left, if_neg right]
        simp only [before, thenBy_directed_of_eq _ hnull, thenBy_directed_of_eq _ hnull.symm]
        by_cases hkind : (comparator.key a).kind = (comparator.key b).kind
        · -- neither compares with anything
          have hrank : comparator.kindRank a = comparator.kindRank b := by
            rw [kindRank, kindRank, hkind]
          simp only [thenBy_directed_of_eq _ hrank, thenBy_directed_of_eq _ hrank.symm]
          have hisolated := apart hkind
          refine thenBy_directed_opposed ?_
          rw [isolatedRank, isolatedRank, if_pos hisolated, if_pos (hkind ▸ hisolated)]
          omega
        · exact thenBy_directed_opposed fun hrank => hkind (kind_of_kindRank hrank)

/-- Rows that can be arranged in both orders at once are all comparable. -/
theorem answersOn_of_sorted {xs ys : List Row} (hdistinct : DistinctOrdinals xs)
    (hwide : ∀ row ∈ xs, comparator.columnIndex < row.values.length) (hperm : ys.Perm xs)
    (hsorted : ∀ flip, IsSorted (comparator.before flip) ys) :
    BoundedHeap.AnswersOn comparator.call xs := by
  have hopposed : ∀ {a b : Row}, a ∈ xs → b ∈ xs → comparator.before false a b →
      comparator.before true b a → False := fun ha hb =>
    not_opposed (before_strictWeak false) hperm (hsorted false) (hsorted true) ha hb
  intro a ha b hb hab
  cases hcmp : comparator.call a b with
  | ok answer => exact ⟨answer, rfl⟩
  | error e =>
    rcases opposed (hwide a ha) (hwide b hb) (hdistinct.ne ha hb hab) hcmp with ⟨h, h'⟩ | ⟨h, h'⟩
    · exact (hopposed ha hb h h').elim
    · exact (hopposed hb ha h h').elim

/-- Which rows a sort can have returned on: the comparator answers about each two of them. -/
theorem stdSort_answers [StdAlgorithms] {xs ys : List Row} (hdistinct : DistinctOrdinals xs)
    (hwide : ∀ row ∈ xs, comparator.columnIndex < row.values.length)
    (hok : stdSort comparator.call xs = .ok ys) : BoundedHeap.AnswersOn comparator.call xs := by
  have hsorted := fun flip =>
    stdSort_sorted (before_strictWeak flip) hdistinct.nodup (call_agrees flip _) hok
  exact answersOn_of_sorted hdistinct hwide (hsorted false).1 fun flip => (hsorted flip).2

/-- **Sorting.**  Where insertion sort returns, the library sort returns the same. -/
theorem stdSort_of_sortBy [StdAlgorithms] {xs ys : List Row} (hdistinct : DistinctOrdinals xs)
    (hwide : ∀ row ∈ xs, comparator.columnIndex < row.values.length)
    (hok : InsertionSort.sortBy comparator.call xs = .ok ys) : stdSort comparator.call xs = .ok ys := by
  have hsorted := fun flip => InsertionSort.sortBy_sorted (before_strictWeak flip) hdistinct.nodup
    (call_agrees flip _) hok
  obtain ⟨zs, hzs⟩ := BoundedHeap.stdSort_total hdistinct.nodup
    (answersOn_of_sorted hdistinct hwide (hsorted false).1 fun flip => (hsorted flip).2)
  obtain ⟨hperm, hzsorted⟩ :=
    stdSort_sorted (before_strictWeak false) hdistinct.nodup (call_agrees false _) hzs
  have heq : zs = ys := by
    refine BoundedHeap.eq_of_isSorted (comparator.before false) (fun a ha b hb hab => ?_)
      (hperm.trans (hsorted false).1.symm) (hsorted false).2 hzsorted
    have hmem : ∀ {row : Row}, row ∈ ys ↔ row ∈ xs := (hsorted false).1.mem_iff
    exact before_total false (hdistinct.ne (hmem.mp ha) (hmem.mp hb) hab)
  exact heq ▸ hzs

/-! ## Keys of one kind

  On rows whose keys are nulls and values of one kind the comparator is total, and none of the
  above is needed. -/

/-- What a sort on a column is given: rows with ordinals of their own that have the column, and in
    it, nulls apart, only numbers other than NaN or only strings. -/
structure Sortable (columnIndex : Nat) (S : Row → Prop) : Prop where
  distinct : ∀ a b, S a → S b → a.ordinal = b.ordinal → a = b
  wide : ∀ a, S a → columnIndex < a.values.length
  oneKind :
    (∀ a value, S a → a.values[columnIndex]? = some value → value = .null ∨ value.kind = .number) ∨
    (∀ a value, S a → a.values[columnIndex]? = some value → value = .null ∨ value.kind = .string)

/-- Two rows a sort on the column cannot tell apart by their keys: both null, or equal values. -/
def SameKey (columnIndex : Nat) (a b : Row) : Prop :=
  ∃ va vb, a.values[columnIndex]? = some va ∧ b.values[columnIndex]? = some vb ∧
    (va = .null ∧ vb = .null ∨ compare va vb = .ok .kEqual)

/-- Keys of one kind, nulls apart. -/
def Matched (va vb : Value) : Prop :=
  va.kind = .null ∨ vb.kind = .null ∨ va.kind = .number ∧ vb.kind = .number ∨
    va.kind = .string ∧ vb.kind = .string

theorem Matched.compare_ok {va vb : Value} (h : Matched va vb) : ∃ r, compare va vb = .ok r := by
  rcases h with h | h | ⟨ha, hb⟩ | ⟨ha, hb⟩
  · exact ⟨_, compare_null (.inl h)⟩
  · exact ⟨_, compare_null (.inr h)⟩
  · exact ⟨_, compare_number ha hb⟩
  · exact ⟨_, compare_string ha hb⟩

theorem Matched.decideCells_ok {va vb : Value} (h : Matched va vb) (direction : SortDirection)
    (aOrdinal bOrdinal : Nat) :
    ∃ answer, decideCells direction aOrdinal bOrdinal va vb = .ok answer := by
  obtain ⟨r, hr⟩ := h.compare_ok
  simp only [decideCells, hr]
  split
  · exact ⟨_, rfl⟩
  · split
    · exact ⟨_, rfl⟩
    · cases r <;> exact ⟨_, rfl⟩

/-- Different keys are ordered oppositely by the two directions. -/
theorem Matched.decideCells_converse {va vb : Value} (h : Matched va vb)
    (hne : ¬ (va = .null ∧ vb = .null ∨ compare va vb = .ok .kEqual)) (aOrdinal bOrdinal : Nat) :
    decideCells .kDescending aOrdinal bOrdinal va vb =
      decideCells .kAscending bOrdinal aOrdinal vb va := by
  obtain ⟨hnulls, hequal⟩ := not_or.mp hne
  obtain ⟨r, hr⟩ := h.compare_ok
  have hswap := compare_swap hr
  simp only [decideCells, hr, hswap, ← kind_eq_null]
  by_cases hanull : va.kind = .null <;> by_cases hbnull : vb.kind = .null
  · exact absurd ⟨Value.eq_null_of_kind hanull, Value.eq_null_of_kind hbnull⟩ hnulls
  · simp [hanull, hbnull]
  · simp [hanull, hbnull]
  · rw [if_neg (fun h => hanull h.1), if_neg (fun h => h.elim hanull hbnull),
      if_neg (fun h => hanull h.2), if_neg (fun h => h.elim hbnull hanull)]
    cases r with
    | kEqual => exact absurd hr hequal
    | kLess | kGreater | kUnordered => rfl

/-- Equal keys leave the decision to the ordinals, whatever the direction. -/
theorem decideCells_same {va vb : Value}
    (h : va = .null ∧ vb = .null ∨ compare va vb = .ok .kEqual) (direction : SortDirection)
    (aOrdinal bOrdinal : Nat) :
    decideCells direction aOrdinal bOrdinal va vb = .ok (decide (aOrdinal < bOrdinal)) := by
  rcases h with ⟨rfl, rfl⟩ | h
  · rfl
  · have hnull : ¬ (va.kind = .null ∨ vb.kind = .null) := by
      intro hnull
      rw [compare_null hnull] at h
      cases h
    obtain ⟨hanull, hbnull⟩ := not_or.mp hnull
    simp only [decideCells, h, ← kind_eq_null]
    rw [if_neg (fun h => hanull h.1), if_neg (fun h => h.elim hanull hbnull)]

section Sortable

variable {columnIndex : Nat} {S : Row → Prop}

theorem getElem?_key {row : Row} (direction : SortDirection)
    (h : columnIndex < row.values.length) :
    row.values[columnIndex]? = some (key ⟨columnIndex, direction⟩ row) := by
  rw [key, List.getElem?_eq_getElem h]
  rfl

/-- Fewer rows. -/
theorem Sortable.mono {S' : Row → Prop} (hS : Sortable columnIndex S) (hsub : ∀ row, S' row → S row) :
    Sortable columnIndex S' where
  distinct a b ha hb := hS.distinct a b (hsub a ha) (hsub b hb)
  wide a ha := hS.wide a (hsub a ha)
  oneKind := hS.oneKind.imp (fun h a value ha => h a value (hsub a ha))
    fun h a value ha => h a value (hsub a ha)

/-- Two keys of a sortable set match. -/
theorem Sortable.matched (hS : Sortable columnIndex S) (direction : SortDirection) {a b : Row}
    (ha : S a) (hb : S b) :
    Matched (key ⟨columnIndex, direction⟩ a) (key ⟨columnIndex, direction⟩ b) := by
  have hakey := getElem?_key direction (hS.wide a ha)
  have hbkey := getElem?_key direction (hS.wide b hb)
  have hnull : ∀ {value : Value}, value = .null → value.kind = .null := fun h => h ▸ rfl
  rcases hS.oneKind with h | h
  · rcases h a _ ha hakey with hanull | hanum
    · exact .inl (hnull hanull)
    · rcases h b _ hb hbkey with hbnull | hbnum
      · exact .inr (.inl (hnull hbnull))
      · exact .inr (.inr (.inl ⟨hanum, hbnum⟩))
  · rcases h a _ ha hakey with hanull | hastr
    · exact .inl (hnull hanull)
    · rcases h b _ hb hbkey with hbnull | hbstr
      · exact .inr (.inl (hnull hbnull))
      · exact .inr (.inr (.inr ⟨hastr, hbstr⟩))

/-- **The comparator is a strict total order on what it is given to sort.**  It never throws there,
    and exactly one of two different rows comes before the other.  Where two keys differ, descending
    is the converse of ascending; where they do not, both directions go by ascending ordinal. -/
theorem call_strictTotal (hS : Sortable columnIndex S) :
    (∀ direction, StrictTotalOn (call ⟨columnIndex, direction⟩) S) ∧
    (∀ a b, S a → S b → ¬ SameKey columnIndex a b →
      call ⟨columnIndex, .kDescending⟩ a b = call ⟨columnIndex, .kAscending⟩ b a) ∧
    (∀ a b, S a → S b → SameKey columnIndex a b → ∀ direction,
      call ⟨columnIndex, direction⟩ a b = .ok (decide (a.ordinal < b.ordinal))) := by
  refine ⟨fun direction => ?_, ?_, ?_⟩
  · have hbefore : IsStrictWeakOrder Row (before ⟨columnIndex, direction⟩ false) :=
      before_strictWeak false
    refine StrictTotalOn.of_order hbefore (fun a b ha hb => ?_) ?_
    · obtain ⟨answer, hanswer⟩ :=
        (hS.matched direction ha hb).decideCells_ok direction a.ordinal b.ordinal
      refine ⟨answer, ?_, decideCells_before hanswer⟩
      rw [call_cells (hS.wide a ha) (hS.wide b hb)]
      exact hanswer
    · intro a b ha hb hab
      exact before_total false fun hordinal => hab (hS.distinct a b ha hb hordinal)
  · intro a b ha hb hne
    rw [call_cells (hS.wide a ha) (hS.wide b hb), call_cells (hS.wide b hb) (hS.wide a ha)]
    refine (hS.matched .kDescending ha hb).decideCells_converse (fun hsame => hne ?_) _ _
    exact ⟨_, _, getElem?_key .kDescending (hS.wide a ha),
      getElem?_key .kDescending (hS.wide b hb), hsame⟩
  · rintro a b ha hb ⟨va, vb, hva, hvb, hsame⟩ direction
    rw [getElem?_key direction (hS.wide a ha), Option.some.injEq] at hva
    rw [getElem?_key direction (hS.wide b hb), Option.some.injEq] at hvb
    rw [call_cells (hS.wide a ha) (hS.wide b hb), hva, hvb]
    exact decideCells_same hsame direction a.ordinal b.ordinal

/-- An integer past `2^53`, the double next to it, and a null. -/
def mixedRows : List Row :=
  [⟨0, [.int64 (2 ^ 53 + 1)]⟩, ⟨1, [.double (.finite ⟨false, 2 ^ 52, 1075, by decide⟩)]⟩,
    ⟨2, [.null]⟩]

theorem call_strictTotal_mixedRows :
    LexOrder.StrictTotalOn (call ⟨0, .kAscending⟩) (· ∈ mixedRows) := by
  refine (call_strictTotal ⟨?_, ?_, .inl ?_⟩).1 .kAscending
  · have hall : ∀ a ∈ mixedRows, ∀ b ∈ mixedRows, a.ordinal = b.ordinal → a = b := by decide
    exact fun a b ha hb => hall a ha b hb
  · have hall : ∀ a ∈ mixedRows, 0 < a.values.length := by decide
    exact hall
  · have hall : ∀ a ∈ mixedRows, ∀ value ∈ a.values[0]?, value = .null ∨ value.kind = .number := by
      decide
    exact fun a value ha hvalue => hall a ha value hvalue

end Sortable

end RowComparator

end QueryLume
