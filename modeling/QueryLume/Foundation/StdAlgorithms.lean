/-
  The three library algorithms a query engine leans on — `std::sort`, `std::push_heap`,
  `std::pop_heap` — as comparison programs together with their standard contracts.

  `StdAlgorithms` bundles one implementation: for every length a program that answers with the
  new arrangement (a list of old positions), plus the contract the standard promises for it when
  the comparator is a strict weak order.  Nothing is promised about a comparator that throws; what
  happens then is derived below from the fact that an implementation is a comparison program.

  What is proved for every instance holds of every implementation that meets its contract and never
  compares an element with itself.  The second condition is not the standard's: a comparison program
  asks about different positions only, as the ordinary build of libstdc++ does, whereas its debug
  mode calls the comparator on one element twice.

  At the level of lists the algorithms are `stdSort`, `pushHeap` and `popHeap`.  Each comes with

  * a contract for PARTIAL comparators (`stdSort_sorted`, `pushHeap_isHeap`, `popHeap_isHeap`): if
    the call returned, its result is correct for every strict weak order that agrees with the
    comparator wherever that one answers;
  * the origin of an exception (`rearrange_error`) and the absence of one (`rearrange_total`);
  * parametricity (`rearrange_forall₂`): ranges the comparator cannot tell apart are rearranged
    alike.
-/
import QueryLume.Foundation.ComparisonProgram
import QueryLume.Foundation.Lists
import Mathlib.Data.List.FinRange
import Mathlib.Order.RelClasses

/-- The heap condition of the C++ standard: no element comes after its parent.  With
    `before a b` read as "`a` orders before `b`", the front is the element that orders last. -/
def IsHeap {α : Type} (before : α → α → Prop) (xs : List α) : Prop :=
  ∀ i (hi : i < xs.length), 0 < i → ¬ before (getElem xs ((i - 1) / 2) (by omega)) xs[i]

/-- Arranged in order: nothing stands after an element it orders before. -/
def IsSorted {α : Type} (before : α → α → Prop) (xs : List α) : Prop :=
  xs.Pairwise fun a b => ¬ before b a

/-- "Does not order before" is transitive in a strict weak order. -/
theorem not_before_trans {α : Type} {before : α → α → Prop}
    (hbefore : IsStrictWeakOrder α before) {a b c : α} (hab : ¬ before a b) (hbc : ¬ before b c) : ¬ before a c := by
  intro hac
  by_cases hba : before b a
  · exact hbc (hbefore.trans b a c hba hac)
  · by_cases hcb : before c b
    · exact hab (hbefore.trans a c b hac hcb)
    · exact (hbefore.incomp_trans a b c ⟨hab, hba⟩ ⟨hbc, hcb⟩).1 hac

/-- An implementation of the library algorithms that never compares an element with itself.  A
    program answers with the old positions in their new order. -/
class StdAlgorithms where
  sort : (n : Nat) → ComparisonProgram n (List (Fin n))
  push_heap : (n : Nat) → ComparisonProgram n (List (Fin n))
  pop_heap : (n : Nat) → ComparisonProgram n (List (Fin n))
  /-- They work in place: whatever the comparator says, the range keeps its length. -/
  sort_length : ∀ n, (sort n).Always (·.length = n)
  push_heap_length : ∀ n, (push_heap n).Always (·.length = n)
  pop_heap_length : ∀ n, (pop_heap n).Always (·.length = n)
  /-- `sort` sorts. -/
  sort_contract : ∀ (n : Nat) (before : Fin n → Fin n → Bool),
    IsStrictWeakOrder (Fin n) (fun i j => before i j = true) →
    ((sort n).decideBy before).Perm (List.finRange n) ∧
    IsSorted (fun i j => before i j = true) ((sort n).decideBy before)
  /-- `push_heap` on a range whose elements but the last form a heap makes the range a heap. -/
  push_heap_contract : ∀ (n : Nat) (before : Fin n → Fin n → Bool),
    IsStrictWeakOrder (Fin n) (fun i j => before i j = true) →
    IsHeap (fun i j => before i j = true) (List.finRange n).dropLast →
    ((push_heap n).decideBy before).Perm (List.finRange n) ∧
    IsHeap (fun i j => before i j = true) ((push_heap n).decideBy before)
  /-- `pop_heap` on a non-empty heap moves the front to the back and makes the rest a heap. -/
  pop_heap_contract : ∀ (n : Nat) (before : Fin (n + 1) → Fin (n + 1) → Bool),
    IsStrictWeakOrder (Fin (n + 1)) (fun i j => before i j = true) →
    IsHeap (fun i j => before i j = true) (List.finRange (n + 1)) →
    ((pop_heap (n + 1)).decideBy before).Perm (List.finRange (n + 1)) ∧
    ((pop_heap (n + 1)).decideBy before).getLast? = some 0 ∧
    IsHeap (fun i j => before i j = true) ((pop_heap (n + 1)).decideBy before).dropLast

namespace StdAlgorithms

variable {α α' ε : Type}

/-! ## The algorithms on lists

  A program speaks of positions; here it is run on a list with a comparator that may throw. -/

/-- Run a program on the range `xs` and arrange the elements as it answers. -/
def rearrange (program : (n : Nat) → ComparisonProgram n (List (Fin n)))
    (cmp : α → α → Except ε Bool) (xs : List α) : Except ε (List α) :=
  ((program xs.length).run fun i j => cmp xs[i] xs[j]).map (List.map xs.get)

/-- `std::sort` with a comparator. -/
def stdSort [StdAlgorithms] : (α → α → Except ε Bool) → List α → Except ε (List α) :=
  rearrange sort

/-- `std::push_heap` with a comparator: the last element of the range is the new one. -/
def pushHeap [StdAlgorithms] : (α → α → Except ε Bool) → List α → Except ε (List α) :=
  rearrange push_heap

/-- `std::pop_heap` with a comparator: the front goes to the end of the range. -/
def popHeap [StdAlgorithms] : (α → α → Except ε Bool) → List α → Except ε (List α) :=
  rearrange pop_heap

/-! ## Facts about every program

  What holds whatever a program asks: it decides as any order does that agrees with the comparator,
  it throws only what the comparator throws, and it returns a rearrangement. -/

/-- On the elements of `S` the comparator answers, where it answers, as `before` does. -/
def Agrees (cmp : α → α → Except ε Bool) (before : α → α → Prop) (S : α → Prop) : Prop :=
  ∀ a b, S a → S b → a ≠ b → ∀ answer, cmp a b = .ok answer → (answer = true ↔ before a b)

/-- Different positions of a duplicate-free list hold different elements. -/
theorem getElem_ne {xs : List α} (hnd : xs.Nodup) {i j : Fin xs.length} (hij : i ≠ j) :
    xs[i] ≠ xs[j] := fun heq =>
  hij (Fin.ext ((List.Nodup.getElem_inj_iff hnd).mp heq))

/-- A rearrangement that returned is the one decided by every order that agrees with the comparator
    about the elements at different positions. -/
theorem rearrange_positions (program : (n : Nat) → ComparisonProgram n (List (Fin n)))
    {cmp : α → α → Except ε Bool} {before : α → α → Prop} {xs ys : List α}
    (hagree : ∀ i j : Fin xs.length, i ≠ j → ∀ answer, cmp xs[i] xs[j] = .ok answer →
      (answer = true ↔ before xs[i] xs[j]))
    {decided : Fin xs.length → Fin xs.length → Bool}
    (hdecided : ∀ i j, decided i j = true ↔ before xs[i] xs[j])
    (hok : rearrange program cmp xs = .ok ys) :
    ys = ((program xs.length).decideBy decided).map xs.get := by
  unfold rearrange at hok
  cases hrun : (program xs.length).run fun i j => cmp xs[i] xs[j] with
  | error e => rw [hrun] at hok; cases hok
  | ok positions =>
    rw [hrun] at hok
    have hsame : (program xs.length).decideBy decided = positions := by
      refine ComparisonProgram.run_ok_eq_decideBy (fun i j hij answer hanswer => ?_) hrun
      rw [Bool.eq_iff_iff, hdecided, hagree i j hij answer hanswer]
    rw [hsame]
    exact (Except.ok.inj hok).symm

/-- The same for a duplicate-free list, where different positions hold different elements. -/
theorem rearrange_ok (program : (n : Nat) → ComparisonProgram n (List (Fin n)))
    {cmp : α → α → Except ε Bool} {before : α → α → Prop} {xs ys : List α}
    (hnd : xs.Nodup) (hagree : Agrees cmp before (· ∈ xs))
    {decided : Fin xs.length → Fin xs.length → Bool}
    (hdecided : ∀ i j, decided i j = true ↔ before xs[i] xs[j])
    (hok : rearrange program cmp xs = .ok ys) :
    ys = ((program xs.length).decideBy decided).map xs.get :=
  rearrange_positions program (fun _ _ hij answer hanswer =>
    hagree _ _ (List.getElem_mem _) (List.getElem_mem _) (getElem_ne hnd hij) answer hanswer)
    hdecided hok

/-- No exception when the comparator answers about any two different elements. -/
theorem rearrange_total (program : (n : Nat) → ComparisonProgram n (List (Fin n)))
    {cmp : α → α → Except ε Bool} {xs : List α} (hnd : xs.Nodup)
    (htotal : ∀ a ∈ xs, ∀ b ∈ xs, a ≠ b → ∃ answer, cmp a b = .ok answer) :
    ∃ ys, rearrange program cmp xs = .ok ys := by
  have hanswers : ∀ i j : Fin xs.length, i ≠ j → ∃ answer, cmp xs[i] xs[j] = .ok answer :=
    fun i j hij => htotal xs[i] (List.getElem_mem _) xs[j] (List.getElem_mem _) (getElem_ne hnd hij)
  obtain ⟨positions, hrun⟩ := ComparisonProgram.run_total hanswers (program xs.length)
  exact ⟨positions.map xs.get, by rw [rearrange, hrun]; rfl⟩

/-- An exception that leaves an algorithm is one the comparator threw, about two elements of the
    range. -/
theorem rearrange_error {program : (n : Nat) → ComparisonProgram n (List (Fin n))}
    {cmp : α → α → Except ε Bool} {xs : List α} {e : ε}
    (herr : rearrange program cmp xs = .error e) :
    ∃ a ∈ xs, ∃ b ∈ xs, cmp a b = .error e := by
  unfold rearrange at herr
  cases hrun : (program xs.length).run fun i j => cmp xs[i] xs[j] with
  | ok positions => rw [hrun] at herr; cases herr
  | error e' =>
    rw [hrun] at herr
    obtain ⟨i, j, -, hcmp⟩ := ComparisonProgram.run_error hrun
    exact ⟨xs[i], List.getElem_mem _, xs[j], List.getElem_mem _,
      hcmp.trans (by rw [Except.error.inj herr])⟩

/-- Rearranging invents nothing. -/
theorem rearrange_mem {program : (n : Nat) → ComparisonProgram n (List (Fin n))}
    {cmp : α → α → Except ε Bool} {xs ys : List α} (hok : rearrange program cmp xs = .ok ys) :
    ∀ y ∈ ys, y ∈ xs := by
  unfold rearrange at hok
  cases hrun : (program xs.length).run fun i j => cmp xs[i] xs[j] with
  | error e => rw [hrun] at hok; cases hok
  | ok positions =>
    rw [hrun] at hok
    obtain rfl := Except.ok.inj hok
    intro y hy
    obtain ⟨i, -, rfl⟩ := List.mem_map.mp hy
    exact List.getElem_mem _

/-- An in-place program keeps the length, also when the comparator is no order at all. -/
theorem rearrange_length {program : (n : Nat) → ComparisonProgram n (List (Fin n))}
    (hlength : ∀ n, (program n).Always (·.length = n)) {cmp : α → α → Except ε Bool}
    {xs ys : List α} (hok : rearrange program cmp xs = .ok ys) : ys.length = xs.length := by
  unfold rearrange at hok
  cases hrun : (program xs.length).run fun i j => cmp xs[i] xs[j] with
  | error e => rw [hrun] at hok; cases hok
  | ok positions =>
    rw [hrun] at hok
    obtain rfl := Except.ok.inj hok
    rw [List.length_map]
    exact (hlength xs.length).run hrun

/-! ## From positions to elements -/

section Positions

variable {before : α → α → Prop} {xs : List α} {decided : Fin xs.length → Fin xs.length → Bool}

/-- The order that positions inherit from the elements they hold. -/
theorem strictWeak_positions (hbefore : IsStrictWeakOrder α before)
    (hdecided : ∀ i j, decided i j = true ↔ before xs[i] xs[j]) :
    IsStrictWeakOrder (Fin xs.length) (fun i j => decided i j = true) where
  irrefl i := by rw [hdecided]; exact hbefore.irrefl _
  trans i j k := by rw [hdecided, hdecided, hdecided]; exact hbefore.trans _ _ _
  incomp_trans i j k := by
    simp only [hdecided]
    exact hbefore.incomp_trans _ _ _

/-- An arrangement of the positions is one of the elements. -/
theorem map_get_perm {positions : List (Fin xs.length)}
    (hperm : positions.Perm (List.finRange xs.length)) : (positions.map xs.get).Perm xs := by
  have h := hperm.map xs.get
  rwa [List.map_get_finRange] at h

theorem isSorted_map_get (hdecided : ∀ i j, decided i j = true ↔ before xs[i] xs[j])
    {positions : List (Fin xs.length)}
    (hsorted : IsSorted (fun i j => decided i j = true) positions) :
    IsSorted before (positions.map xs.get) := by
  refine List.pairwise_map.mpr (List.Pairwise.imp (fun {i j} hij => ?_) hsorted)
  exact fun hbefore => hij ((hdecided j i).mpr hbefore)

theorem isHeap_map_get (hdecided : ∀ i j, decided i j = true ↔ before xs[i] xs[j])
    {positions : List (Fin xs.length)} :
    IsHeap before (positions.map xs.get) ↔ IsHeap (fun i j => decided i j = true) positions := by
  refine forall_congr' fun i => ?_
  simp only [List.length_map, List.getElem_map]
  refine forall_congr' fun hi => forall_congr' fun hpos => ?_
  exact not_congr (hdecided _ _).symm

end Positions

/-! ## The contracts, for comparators that may throw

  The contracts of the class speak of comparators that are strict weak orders.  A comparator that
  throws at some pairs and returned is one as far as it was asked, so the contracts hold under
  every order that agrees with it. -/

section Contracts

variable [StdAlgorithms] {before : α → α → Prop} {cmp : α → α → Except ε Bool} {xs ys : List α}

open Classical in
/-- A sort that returned has sorted its input under EVERY strict weak order the comparator
    agrees with. -/
theorem stdSort_sorted (hbefore : IsStrictWeakOrder α before) (hnd : xs.Nodup)
    (hagree : Agrees cmp before (· ∈ xs)) (hok : stdSort cmp xs = .ok ys) :
    ys.Perm xs ∧ IsSorted before ys := by
  let decided : Fin xs.length → Fin xs.length → Bool := fun i j => decide (before xs[i] xs[j])
  have hdecided : ∀ i j, decided i j = true ↔ before xs[i] xs[j] := fun i j => decide_eq_true_iff
  obtain ⟨hperm, hsorted⟩ :=
    sort_contract xs.length decided (strictWeak_positions hbefore hdecided)
  rw [rearrange_ok _ hnd hagree hdecided hok]
  exact ⟨map_get_perm hperm, isSorted_map_get hdecided hsorted⟩

open Classical in
/-- Equal elements do not hurt when the order agrees about them too. -/
theorem stdSort_rearranges (hbefore : IsStrictWeakOrder α before)
    (hagree : ∀ a b answer, cmp a b = .ok answer → (answer = true ↔ before a b))
    (hok : stdSort cmp xs = .ok ys) : ys.Perm xs := by
  let decided : Fin xs.length → Fin xs.length → Bool := fun i j => decide (before xs[i] xs[j])
  have hdecided : ∀ i j, decided i j = true ↔ before xs[i] xs[j] := fun i j => decide_eq_true_iff
  rw [rearrange_positions _ (fun i j _ => hagree xs[i] xs[j]) hdecided hok]
  exact map_get_perm (sort_contract xs.length decided (strictWeak_positions hbefore hdecided)).1

open Classical in
/-- A push that returned has made the range a heap, under every strict weak order the comparator
    agrees with. -/
theorem pushHeap_isHeap (hbefore : IsStrictWeakOrder α before) (hnd : xs.Nodup)
    (hagree : Agrees cmp before (· ∈ xs)) (hheap : IsHeap before xs.dropLast)
    (hok : pushHeap cmp xs = .ok ys) : ys.Perm xs ∧ IsHeap before ys := by
  let decided : Fin xs.length → Fin xs.length → Bool := fun i j => decide (before xs[i] xs[j])
  have hdecided : ∀ i j, decided i j = true ↔ before xs[i] xs[j] := fun i j => decide_eq_true_iff
  have hpos : IsHeap (fun i j => decided i j = true) (List.finRange xs.length).dropLast := by
    rw [← isHeap_map_get hdecided, List.map_dropLast]
    rwa [List.map_get_finRange]
  obtain ⟨hperm, hheap'⟩ :=
    push_heap_contract xs.length decided (strictWeak_positions hbefore hdecided) hpos
  rw [rearrange_ok _ hnd hagree hdecided hok]
  exact ⟨map_get_perm hperm, (isHeap_map_get hdecided).mpr hheap'⟩

open Classical in
/-- A pop that returned has parked the front at the end and left a heap of the others. -/
theorem popHeap_isHeap {front : α} {rest : List α} (hbefore : IsStrictWeakOrder α before)
    (hnd : (front :: rest).Nodup) (hagree : Agrees cmp before (· ∈ front :: rest))
    (hheap : IsHeap before (front :: rest)) (hok : popHeap cmp (front :: rest) = .ok ys) :
    ∃ others, ys = others ++ [front] ∧ others.Perm rest ∧ IsHeap before others := by
  let xs := front :: rest
  let decided : Fin xs.length → Fin xs.length → Bool := fun i j => decide (before xs[i] xs[j])
  have hdecided : ∀ i j, decided i j = true ↔ before xs[i] xs[j] := fun i j => decide_eq_true_iff
  have hpos : IsHeap (fun i j => decided i j = true) (List.finRange xs.length) := by
    rw [← isHeap_map_get hdecided]
    rwa [List.map_get_finRange]
  obtain ⟨hperm, hlast, hheap'⟩ :=
    pop_heap_contract rest.length decided (strictWeak_positions hbefore hdecided) hpos
  have hys := rearrange_ok pop_heap hnd hagree hdecided hok
  obtain ⟨init, hinit⟩ := List.getLast?_eq_some_iff.mp hlast
  have hsplit : ys = init.map xs.get ++ [front] := by
    rw [hys]
    exact (congrArg (List.map xs.get) hinit).trans (by rw [List.map_append]; rfl)
  refine ⟨init.map xs.get, hsplit, ?_, ?_⟩
  · have hyperm : ys.Perm (front :: rest) := by rw [hys]; exact map_get_perm hperm
    rw [hsplit] at hyperm
    exact List.Perm.cons_inv ((List.perm_append_singleton front _).symm.trans hyperm)
  · refine (isHeap_map_get hdecided).mpr ?_
    rwa [hinit, List.dropLast_concat] at hheap'

omit [StdAlgorithms] in
/-- What two orders cannot do that one arrangement is sorted under: disagree about a pair. -/
theorem not_opposed {before' : α → α → Prop} (hbefore : IsStrictWeakOrder α before)
    (hperm : ys.Perm xs) (hsorted : IsSorted before ys) (hsorted' : IsSorted before' ys) {a b : α}
    (ha : a ∈ xs) (hb : b ∈ xs) (hab : before a b) (hba : before' b a) : False := by
  have hne : a ≠ b := fun heq => hbefore.irrefl a (by rw [← heq] at hab; exact hab)
  -- the arrangement holds both elements; whichever stands first breaks one of the orders
  obtain ⟨i, hi, rfl⟩ := List.mem_iff_getElem.mp (hperm.mem_iff.mpr ha)
  obtain ⟨j, hj, rfl⟩ := List.mem_iff_getElem.mp (hperm.mem_iff.mpr hb)
  rcases Nat.lt_trichotomy i j with hij | rfl | hji
  · exact List.pairwise_iff_getElem.mp hsorted' i j hi hj hij hba
  · exact hne rfl
  · exact List.pairwise_iff_getElem.mp hsorted j i hj hi hji hab

end Contracts

/-! ## Parametricity -/

/-- Ranges whose elements the comparators cannot tell apart are rearranged alike. -/
theorem rearrange_forall₂ (program : (n : Nat) → ComparisonProgram n (List (Fin n)))
    {cmp : α → α → Except ε Bool} {cmp' : α' → α' → Except ε Bool} {R : α → α' → Prop}
    (hcmp : ∀ a a' b b', R a a' → R b b' → cmp a b = cmp' a' b') {xs : List α} {xs' : List α'}
    (hxs : List.Forall₂ R xs xs') :
    SameOutcome (List.Forall₂ R) (rearrange program cmp xs) (rearrange program cmp' xs') := by
  obtain ⟨hlen, hrel⟩ := List.forall₂_iff_get.mp hxs
  have hsame : ∀ (n n' : Nat) (hn : n = n') (get : Fin n → α) (get' : Fin n' → α')
      (_ : ∀ i : Fin n, R (get i) (get' (Fin.cast hn i))),
      SameOutcome (List.Forall₂ R) (((program n).run fun i j => cmp (get i) (get j)).map (List.map get))
        (((program n').run fun i j => cmp' (get' i) (get' j)).map (List.map get')) := by
    rintro n _ rfl get get' hget
    have hasked : ∀ i j, i ≠ j → cmp (get i) (get j) = cmp' (get' i) (get' j) :=
      fun i j _ => hcmp _ _ _ _ (hget i) (hget j)
    rw [ComparisonProgram.run_congr hasked (program n)]
    cases (program n).run fun i j => cmp' (get' i) (get' j) with
    | error e => exact .error e
    | ok positions =>
      refine .ok (List.forall₂_map_left_iff.mpr (List.forall₂_map_right_iff.mpr ?_))
      exact List.forall₂_same.mpr fun i _ => hget i
  exact hsame xs.length xs'.length hlen xs.get xs'.get
    (fun i => hrel i.val i.isLt (hlen ▸ i.isLt))

end StdAlgorithms
