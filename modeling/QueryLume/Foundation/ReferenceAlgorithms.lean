/-
  A concrete implementation of the library algorithms, with its contracts proved.

  * `sort`      — insertion sort;
  * `push_heap` — append at the end and sift up;
  * `pop_heap`  — move the last element to the front, sift it down, park the old front at the end.

  The sifts work by swapping along a path of the implicit binary tree.  Their invariants say that
  every edge of the tree is in order except the ones at the moving element: the edge ABOVE it when
  sifting up (`UpHeap`), the edges BELOW it when sifting down (`DownHeap`).

  The instance shows that the contracts of `StdAlgorithms` can be met, and lets every definition
  over them be evaluated on concrete rows.  A second one, `backwards`, compares other elements
  first; the two tell apart what depends on the library and what does not.
-/
import QueryLume.Foundation.StdAlgorithms
import Mathlib.Data.List.Sort
import Mathlib.Tactic.Ring

namespace ReferenceAlgorithms

open ComparisonProgram

variable {n : Nat}

/-- Ask which of two positions comes first; a position does not come before itself. -/
def askBefore {β : Type} (i j : Fin n) (next : Bool → ComparisonProgram n β) :
    ComparisonProgram n β :=
  if h : i = j then next false else ask i j h next

/-- Under a strict weak order the shortcut is right: nothing comes before itself. -/
@[simp] theorem decideBy_askBefore {β : Type} {before : Fin n → Fin n → Bool}
    (hbefore : IsStrictWeakOrder (Fin n) (fun i j => before i j = true)) (i j : Fin n)
    (next : Bool → ComparisonProgram n β) :
    (askBefore i j next).decideBy before = (next (before i j)).decideBy before := by
  unfold askBefore
  split
  · rename_i h
    subst h
    rw [show before i i = false from by simpa using hbefore.irrefl i]
  · rfl

/-! ## Insertion sort

  As a program that asks questions about positions.  Against an order that answers all of them it
  is the insertion sort of Mathlib, which is known to sort. -/

/-- Insert a position into a sorted list of positions, before the first that is not before it. -/
def insert (x : Fin n) : List (Fin n) → ComparisonProgram n (List (Fin n))
  | [] => done [x]
  | y :: ys => askBefore y x fun yFirst =>
      if yFirst then (insert x ys).bind fun zs => done (y :: zs) else done (x :: y :: ys)

/-- Sort positions, the last one first. -/
def insertionSort : List (Fin n) → ComparisonProgram n (List (Fin n))
  | [] => done []
  | x :: xs => (insertionSort xs).bind (insert x)

section Sorting

variable {before : Fin n → Fin n → Bool}
  (hbefore : IsStrictWeakOrder (Fin n) (fun i j => before i j = true))

include hbefore in
/-- Under an order that answers every question this is Mathlib's insertion. -/
theorem decideBy_insert (x : Fin n) (ys : List (Fin n)) :
    (insert x ys).decideBy before = ys.orderedInsert (fun a b => before b a = false) x := by
  induction ys with
  | nil => rfl
  | cons y ys ih =>
    rw [insert, decideBy_askBefore hbefore, List.orderedInsert_cons]
    cases hyx : before y x with
    | true => simp [ih]
    | false => simp

include hbefore in
theorem decideBy_insertionSort (xs : List (Fin n)) :
    (insertionSort xs).decideBy before =
      xs.insertionSort (fun a b => before b a = false) := by
  induction xs with
  | nil => rfl
  | cons x xs ih =>
    rw [insertionSort, decideBy_bind, decideBy_insert hbefore, ih, List.insertionSort_cons]

include hbefore in
theorem insertionSort_sorted (xs : List (Fin n)) :
    IsSorted (fun i j => before i j = true) ((insertionSort xs).decideBy before) := by
  rw [decideBy_insertionSort hbefore]
  have : Std.Total (fun a b : Fin n => before b a = false) := ⟨fun a b => by
    by_contra h
    simp only [not_or, Bool.not_eq_false] at h
    exact hbefore.irrefl a (hbefore.trans a b a h.2 h.1)⟩
  have : IsTrans (Fin n) (fun a b => before b a = false) := ⟨fun a b c hab hbc => by
    simpa using not_before_trans hbefore (a := c) (b := b) (c := a) (by simp [hbc]) (by simp [hab])⟩
  exact (List.pairwise_insertionSort _ xs).imp fun h => by simp [h]

end Sorting

/-! ## Heaps: the swap and the two sifts

  A heap is a list with an order along the edges from `(i - 1) / 2` to `i`.  A sift keeps all edges
  but those at one position in order and moves that position up or down, until these are in order
  too. -/

/-- Exchange the entries at `i` and `j`. -/
def swap (xs : List (Fin n)) (i j : Nat) (hi : i < xs.length) (hj : j < xs.length) :
    List (Fin n) :=
  (xs.set i xs[j]).set j xs[i]

@[simp] theorem length_swap (xs : List (Fin n)) (i j : Nat) (hi : i < xs.length)
    (hj : j < xs.length) : (swap xs i j hi hj).length = xs.length := by
  simp [swap]

theorem swap_perm (xs : List (Fin n)) (i j : Nat) (hi : i < xs.length) (hj : j < xs.length) :
    (swap xs i j hi hj).Perm xs :=
  List.set_set_perm hi hj

theorem getElem_swap (xs : List (Fin n)) (i j : Nat) (hi : i < xs.length) (hj : j < xs.length)
    (m : Nat) (hm : m < (swap xs i j hi hj).length) :
    (swap xs i j hi hj)[m] =
      if m = j then xs[i] else if m = i then xs[j] else getElem xs m (by simpa using hm) := by
  simp only [swap, List.getElem_set]
  grind

/-- Move the entry at `i` up while it comes after its parent. -/
def siftUp : Nat → List (Fin n) → Nat → ComparisonProgram n (List (Fin n))
  | 0, xs, _ => done xs
  | fuel + 1, xs, i =>
    if h : 0 < i ∧ i < xs.length then
      askBefore (getElem xs ((i - 1) / 2) (by omega)) xs[i] fun parentFirst =>
        if parentFirst then
          siftUp fuel (swap xs ((i - 1) / 2) i (by omega) h.2) ((i - 1) / 2)
        else done xs
    else done xs

/-- Move the entry at `i` down while one of its children comes after it. -/
def siftDown : Nat → List (Fin n) → Nat → ComparisonProgram n (List (Fin n))
  | 0, xs, _ => done xs
  | fuel + 1, xs, i =>
    if hl : 2 * i + 1 < xs.length then
      if hr : 2 * i + 2 < xs.length then
        askBefore xs[2 * i + 1] xs[2 * i + 2] fun leftFirst =>
          if leftFirst then
            askBefore (getElem xs i (by omega)) xs[2 * i + 2] fun first =>
              if first then siftDown fuel (swap xs i (2 * i + 2) (by omega) hr) (2 * i + 2)
              else done xs
          else
            askBefore (getElem xs i (by omega)) xs[2 * i + 1] fun first =>
              if first then siftDown fuel (swap xs i (2 * i + 1) (by omega) hl) (2 * i + 1)
              else done xs
      else
        askBefore (getElem xs i (by omega)) xs[2 * i + 1] fun first =>
          if first then siftDown fuel (swap xs i (2 * i + 1) (by omega) hl) (2 * i + 1)
          else done xs
    else done xs

section Sifting

variable {before : Fin n → Fin n → Bool}
  (hbefore : IsStrictWeakOrder (Fin n) (fun i j => before i j = true))

/-- While sifting up: every edge but the one above `i` is in order, and the entries below `i` do
    not come after the one above it. -/
def UpHeap (before : Fin n → Fin n → Bool) (xs : List (Fin n)) (i : Nat) : Prop :=
  (∀ j (hj : j < xs.length), 0 < j → j ≠ i →
    before (getElem xs ((j - 1) / 2) (by omega)) xs[j] = false) ∧
  (∀ j (hj : j < xs.length), 0 < j → 0 < i → (hji : (j - 1) / 2 = i) →
    before (getElem xs ((i - 1) / 2) (by omega)) xs[j] = false)

/-- While sifting down: every edge but the ones below `i` is in order, and the entries below `i`
    do not come after the one above it. -/
def DownHeap (before : Fin n → Fin n → Bool) (xs : List (Fin n)) (i : Nat) : Prop :=
  (∀ j (hj : j < xs.length), 0 < j → (j - 1) / 2 ≠ i →
    before (getElem xs ((j - 1) / 2) (by omega)) xs[j] = false) ∧
  (∀ j (hj : j < xs.length), 0 < j → 0 < i → (hji : (j - 1) / 2 = i) →
    before (getElem xs ((i - 1) / 2) (by omega)) xs[j] = false)

include hbefore in
theorem before_asymm {a b : Fin n} (hab : before a b = true) : before b a = false := by
  by_contra h
  rw [Bool.not_eq_false] at h
  exact hbefore.irrefl a (hbefore.trans a b a hab h)

include hbefore in
theorem not_before_trans' {a b c : Fin n} (hab : before a b = false) (hbc : before b c = false) :
    before a c = false := by
  simpa using not_before_trans hbefore (by simpa using hab) (by simpa using hbc)

/-- If the edge above the moving element is in order as well, all of them are. -/
theorem UpHeap.finish {xs : List (Fin n)} {i : Nat} (hup : UpHeap before xs i)
    (hedge : ∀ (hi : i < xs.length), 0 < i → before (getElem xs ((i - 1) / 2) (by omega)) xs[i] = false) :
    IsHeap (fun i j => before i j = true) xs := by
  intro j hj hpos
  rw [Bool.not_eq_true]
  by_cases hji : j = i
  · subst hji; exact hedge hj hpos
  · exact hup.1 j hj hpos hji

include hbefore in
/-- One exchange moves the exception to the parent. -/
theorem UpHeap.move {xs : List (Fin n)} {i : Nat} (hup : UpHeap before xs i) (hpos : 0 < i)
    (hi : i < xs.length) (hlt : before (getElem xs ((i - 1) / 2) (by omega)) xs[i] = true) :
    UpHeap before (swap xs ((i - 1) / 2) i (by omega) hi) ((i - 1) / 2) := by
  have hge := before_asymm hbefore hlt
  refine ⟨fun j hj hj0 hjp => ?_, fun j hj hj0 hp0 hjp => ?_⟩
  · simp only [getElem_swap]
    simp only [length_swap] at hj
    by_cases hji : j = i
    · subst hji
      simp [show ¬ (j - 1) / 2 = j by omega, hge]
    · by_cases hpar : (j - 1) / 2 = i
      · simp only [hpar, hji, hjp, if_true, if_false]
        exact hup.2 j hj hj0 hpos hpar
      · by_cases hsib : (j - 1) / 2 = (i - 1) / 2
        · have h := hup.1 j hj hj0 hji
          simp only [hsib] at h
          simp only [hsib, hji, hjp, show ¬ (i - 1) / 2 = i by omega, if_true, if_false]
          exact not_before_trans' hbefore hge h
        · simp only [hpar, hsib, hji, hjp, if_false]
          exact hup.1 j hj hj0 hji
  · simp only [getElem_swap]
    simp only [length_swap] at hj
    have htop : before (getElem xs (((i - 1) / 2 - 1) / 2) (by omega)) (getElem xs ((i - 1) / 2) (by omega)) = false :=
      hup.1 ((i - 1) / 2) (by omega) hp0 (by omega)
    have hne1 : ¬ ((i - 1) / 2 - 1) / 2 = i := by omega
    have hne2 : ¬ ((i - 1) / 2 - 1) / 2 = (i - 1) / 2 := by omega
    by_cases hji : j = i
    · subst hji
      simpa [hne1, hne2] using htop
    · have hjp' : ¬ j = (i - 1) / 2 := by omega
      have h := hup.1 j hj hj0 hji
      simp only [hjp] at h
      simp only [hne1, hne2, hji, hjp', if_false]
      exact not_before_trans' hbefore htop h

include hbefore in
/-- Sifting up repairs the edge above `i`; by induction on the height that is left. -/
theorem siftUp_isHeap : ∀ (fuel : Nat) (xs : List (Fin n)) (i : Nat), i ≤ fuel →
    UpHeap before xs i → ((siftUp fuel xs i).decideBy before).Perm xs ∧
      IsHeap (fun i j => before i j = true) ((siftUp fuel xs i).decideBy before) := by
  intro fuel
  induction fuel with
  | zero =>
    intro xs i hfuel hup
    exact ⟨List.Perm.refl _, hup.finish fun _ hpos => by omega⟩
  | succ fuel ih =>
    intro xs i hfuel hup
    rw [siftUp]
    split
    · rename_i h
      rw [decideBy_askBefore hbefore]
      split
      · rename_i hlt
        obtain ⟨hperm, hheap⟩ := ih _ ((i - 1) / 2) (by omega) (hup.move hbefore h.1 h.2 hlt)
        exact ⟨hperm.trans (swap_perm ..), hheap⟩
      · rename_i hlt
        exact ⟨List.Perm.refl _, hup.finish fun _ _ => by simpa using hlt⟩
    · rename_i h
      exact ⟨List.Perm.refl _, hup.finish fun hi hpos => absurd ⟨hpos, hi⟩ h⟩

/-- If the edges below the moving element are in order as well, all of them are. -/
theorem DownHeap.finish {xs : List (Fin n)} {i : Nat} (hdown : DownHeap before xs i)
    (hedges : ∀ j (hj : j < xs.length), 0 < j → (hji : (j - 1) / 2 = i) →
      before (getElem xs i (by omega)) xs[j] = false) :
    IsHeap (fun i j => before i j = true) xs := by
  intro j hj hpos
  rw [Bool.not_eq_true]
  by_cases hji : (j - 1) / 2 = i
  · subst hji; exact hedges j hj hpos rfl
  · exact hdown.1 j hj hpos hji

include hbefore in
/-- One exchange with the later of the two children moves the exceptions to that child. -/
theorem DownHeap.move {xs : List (Fin n)} {i c : Nat} (hdown : DownHeap before xs i)
    (hc : c < xs.length) (hc0 : 0 < c) (hci : (c - 1) / 2 = i)
    (hlast : ∀ j (hj : j < xs.length), 0 < j → (j - 1) / 2 = i → before xs[c] xs[j] = false)
    (hlt : before (getElem xs i (by omega)) xs[c] = true) :
    DownHeap before (swap xs i c (by omega) hc) c := by
  have hge := before_asymm hbefore hlt
  refine ⟨fun j hj hj0 hjc => ?_, fun j hj hj0 hc0' hjc => ?_⟩
  · simp only [getElem_swap]
    simp only [length_swap] at hj
    by_cases hjc' : j = c
    · subst hjc'
      simp [hci, show ¬ i = j by omega, hge]
    · by_cases hsib : (j - 1) / 2 = i
      · simp only [hsib, hjc', show ¬ i = c by omega, show ¬ j = i by omega, if_true, if_false]
        exact hlast j hj hj0 hsib
      · by_cases hji : j = i
        · subst hji
          simp only [hjc, hsib, show ¬ j = c by omega, if_true, if_false]
          exact hdown.2 c hc hc0 (by omega) hci
        · simp only [hjc, hsib, hjc', hji, if_false]
          exact hdown.1 j hj hj0 hsib
  · simp only [getElem_swap]
    simp only [length_swap] at hj
    have h := hdown.1 j hj hj0 (by omega)
    simp only [hjc] at h
    simpa [hci, show ¬ i = c by omega, show ¬ j = c by omega, show ¬ j = i by omega] using h

include hbefore in
/-- Sifting down repairs the edges below `i`; by induction on the length that is left below. -/
theorem siftDown_isHeap : ∀ (fuel : Nat) (xs : List (Fin n)) (i : Nat), xs.length ≤ fuel + i →
    DownHeap before xs i → ((siftDown fuel xs i).decideBy before).Perm xs ∧
      IsHeap (fun i j => before i j = true) ((siftDown fuel xs i).decideBy before) := by
  intro fuel
  induction fuel with
  | zero =>
    intro xs i hfuel hdown
    exact ⟨List.Perm.refl _, hdown.finish fun j hj hj0 hji => by omega⟩
  | succ fuel ih =>
    intro xs i hfuel hdown
    -- what both arms do once the child `c` that comes last is known
    have harm : ∀ c (hc : c < xs.length) (_ : 0 < c) (hci : (c - 1) / 2 = i),
        (∀ j (hj : j < xs.length), 0 < j → (j - 1) / 2 = i → before xs[c] xs[j] = false) →
        (((if before (getElem xs i (by omega)) xs[c] = true then siftDown fuel (swap xs i c (by omega) hc) c
          else done xs).decideBy before).Perm xs ∧
        IsHeap (fun i j => before i j = true)
          ((if before (getElem xs i (by omega)) xs[c] = true then siftDown fuel (swap xs i c (by omega) hc) c
            else done xs).decideBy before)) := by
      intro c hc hc0 hci hlast
      split
      · rename_i hlt
        obtain ⟨hperm, hheap⟩ := ih (swap xs i c (by omega) hc) c (by rw [length_swap]; omega)
          (hdown.move hbefore hc hc0 hci hlast hlt)
        exact ⟨hperm.trans (swap_perm ..), hheap⟩
      · rename_i hlt
        refine ⟨List.Perm.refl _, hdown.finish fun j hj hj0 hji => ?_⟩
        exact not_before_trans' hbefore (by simpa using hlt) (hlast j hj hj0 hji)
    rw [siftDown]
    split
    · rename_i hl
      split
      · rename_i hr
        have hchild : ∀ j, 0 < j → (j - 1) / 2 = i → j = 2 * i + 1 ∨ j = 2 * i + 2 := by omega
        have hself : ∀ a : Fin n, before a a = false := fun a => by simpa using hbefore.irrefl a
        rw [decideBy_askBefore hbefore]
        split
        · rename_i hlr
          rw [decideBy_askBefore hbefore]
          refine harm (2 * i + 2) hr (by omega) (by omega) fun j hj hj0 hji => ?_
          rcases hchild j hj0 hji with rfl | rfl
          · exact before_asymm hbefore hlr
          · exact hself _
        · rename_i hlr
          rw [decideBy_askBefore hbefore]
          refine harm (2 * i + 1) hl (by omega) (by omega) fun j hj hj0 hji => ?_
          rcases hchild j hj0 hji with rfl | rfl
          · exact hself _
          · simpa using hlr
      · rename_i hr
        rw [decideBy_askBefore hbefore]
        refine harm (2 * i + 1) hl (by omega) (by omega) fun j hj hj0 hji => ?_
        obtain rfl : j = 2 * i + 1 := by omega
        simpa using hbefore.irrefl _
    · rename_i hl
      exact ⟨List.Perm.refl _, hdown.finish fun j hj hj0 hji => by omega⟩

end Sifting

/-! ## Lengths

  What the programs return has as many entries as the range, whatever they are answered.  This is
  stated for every run of a program, so it covers comparators that are no orders. -/

/-- A question does not change what all results have in common. -/
theorem always_askBefore {β : Type} {P : β → Prop} {i j : Fin n}
    {next : Bool → ComparisonProgram n β} (hnext : ∀ answer, (next answer).Always P) :
    (askBefore i j next).Always P := by
  unfold askBefore
  split
  · exact hnext false
  · exact hnext

/-- Inserting makes a list longer by one, whatever the answers are. -/
theorem insert_length (x : Fin n) (ys : List (Fin n)) :
    (insert x ys).Always (·.length = ys.length + 1) := by
  induction ys with
  | nil => rfl
  | cons y ys ih =>
    refine always_askBefore fun yFirst => ?_
    cases yFirst with
    | false => rfl
    | true => exact ih.bind fun zs hzs => by simp only [Always, List.length_cons, hzs]

/-- Sorting keeps the length, whatever the answers are. -/
theorem insertionSort_length (xs : List (Fin n)) :
    (insertionSort xs).Always (·.length = xs.length) := by
  induction xs with
  | nil => rfl
  | cons x xs ih =>
    refine ih.bind fun ys hys => ?_
    have h := insert_length x ys
    rwa [hys] at h

theorem siftUp_length : ∀ (fuel : Nat) (xs : List (Fin n)) (i : Nat),
    (siftUp fuel xs i).Always (·.length = xs.length) := by
  intro fuel
  induction fuel with
  | zero => intro xs i; rfl
  | succ fuel ih =>
    intro xs i
    rw [siftUp]
    split
    · refine always_askBefore fun parentFirst => ?_
      cases parentFirst with
      | false => rfl
      | true =>
        have h := ih (swap xs ((i - 1) / 2) i (by omega) (by omega)) ((i - 1) / 2)
        rwa [length_swap] at h
    · rfl

theorem siftDown_length : ∀ (fuel : Nat) (xs : List (Fin n)) (i : Nat),
    (siftDown fuel xs i).Always (·.length = xs.length) := by
  intro fuel
  induction fuel with
  | zero => intro xs i; rfl
  | succ fuel ih =>
    intro xs i
    have hchild : ∀ (c : Nat) (hc : c < xs.length) (hi : i < xs.length),
        (askBefore xs[i] xs[c] fun first =>
          if first then siftDown fuel (swap xs i c hi hc) c else done xs).Always
            (·.length = xs.length) := by
      intro c hc hi
      refine always_askBefore fun first => ?_
      cases first with
      | false => rfl
      | true =>
        have h := ih (swap xs i c hi hc) c
        rwa [length_swap] at h
    rw [siftDown]
    split
    · split
      · refine always_askBefore fun leftFirst => ?_
        cases leftFirst with
        | false => exact hchild _ _ _
        | true => exact hchild _ _ _
      · exact hchild _ _ _
    · rfl

/-! ## The instance

  The four algorithms with their contracts.  A second instance differs in the order in which its
  sort asks. -/

/-- The arrangement a pop starts from: the last element in the front's place, then the others. -/
def lastFirst (n : Nat) : List (Fin (n + 1)) :=
  match n with
  | 0 => []
  | n + 1 => Fin.last (n + 1) :: ((List.finRange n).map fun i => i.succ.castSucc)

/-- Pop: the last element to the front, sift it down, the old front to the end. -/
def popHeap : (n : Nat) → ComparisonProgram n (List (Fin n))
  | 0 => done []
  | n + 1 => (siftDown n (lastFirst n) 0).bind fun rest => done (rest ++ [0])

/-- With the old front at the end, it is an arrangement of the range. -/
theorem lastFirst_perm (n : Nat) : (lastFirst n ++ [0]).Perm (List.finRange (n + 1)) := by
  cases n with
  | zero => exact List.Perm.refl _
  | succ n =>
    rw [lastFirst, List.finRange_succ, List.finRange_succ_last, List.map_append, List.map_map]
    refine (List.perm_append_singleton 0 _).trans (List.Perm.cons 0 ?_)
    exact (List.perm_append_singleton (Fin.last (n + 1)) _).symm

/-- Below its front the arrangement keeps the edges of the popped heap. -/
theorem lastFirst_downHeap {n : Nat} {before : Fin (n + 1) → Fin (n + 1) → Bool}
    (hheap : IsHeap (fun i j => before i j = true) (List.finRange (n + 1))) :
    DownHeap before (lastFirst n) 0 := by
  refine ⟨fun j hj hj0 hjp => ?_, fun j hj hj0 h0 _ => absurd h0 (Nat.lt_irrefl 0)⟩
  cases n with
  | zero => exact absurd hj (Nat.not_lt_zero j)
  | succ n =>
    have hentry : ∀ m (hm : m < (lastFirst (n + 1)).length), 0 < m →
        (lastFirst (n + 1))[m] = ⟨m, by simp [lastFirst] at hm; omega⟩ := by
      intro m hm hm0
      obtain ⟨m', rfl⟩ := Nat.exists_eq_succ_of_ne_zero (Nat.pos_iff_ne_zero.mp hm0)
      simp [lastFirst]
    have hlen : (lastFirst (n + 1)).length = n + 1 := by simp [lastFirst]
    have h := hheap j (by simp; omega) hj0
    rw [hentry j hj hj0, hentry ((j - 1) / 2) (by omega) (by omega)]
    simpa using h

/-- **The reference implementation** satisfies the contracts. -/
@[reducible] def reference : StdAlgorithms where
  sort n := insertionSort (List.finRange n)
  push_heap n := siftUp n (List.finRange n) (n - 1)
  pop_heap := popHeap
  sort_length n := by simpa using insertionSort_length (List.finRange n)
  push_heap_length n := by simpa using siftUp_length n (List.finRange n) (n - 1)
  pop_heap_length n := by
    cases n with
    | zero => rfl
    | succ n =>
      refine (siftDown_length n (lastFirst n) 0).bind fun rest hrest => ?_
      cases n <;> simp_all [Always, lastFirst]
  sort_contract n before hbefore := by
    refine ⟨?_, insertionSort_sorted hbefore _⟩
    rw [decideBy_insertionSort hbefore]
    exact List.perm_insertionSort _ _
  push_heap_contract n before hbefore hheap := by
    have hup : UpHeap before (List.finRange n) (n - 1) := by
      refine ⟨fun j hj hj0 hjn => ?_, fun j hj hj0 hn hjn => ?_⟩
      · simp only [List.length_finRange] at hj
        have h := hheap j (by simp; omega) hj0
        simpa using h
      · simp only [List.length_finRange] at hj
        omega
    exact siftUp_isHeap hbefore n (List.finRange n) (n - 1) (by omega) hup
  pop_heap_contract n before hbefore hheap := by
    obtain ⟨hperm, hres⟩ := siftDown_isHeap hbefore n (lastFirst n) 0
      (by cases n <;> simp [lastFirst]) (lastFirst_downHeap hheap)
    simp only [popHeap, decideBy_bind, decideBy_done]
    refine ⟨(hperm.append_right [0]).trans (lastFirst_perm n), by simp, ?_⟩
    rwa [List.dropLast_concat]

/-- **Another implementation**: its sort takes the elements the other way around, and so compares
    others first. -/
@[reducible] def backwards : StdAlgorithms :=
  { reference with
    sort := fun n => insertionSort (List.finRange n).reverse
    sort_length := by
      intro n
      simpa using insertionSort_length (List.finRange n).reverse
    sort_contract := by
      intro n before hbefore
      refine ⟨?_, insertionSort_sorted hbefore _⟩
      rw [decideBy_insertionSort hbefore]
      exact (List.perm_insertionSort _ _).trans (List.reverse_perm _) }

end ReferenceAlgorithms
