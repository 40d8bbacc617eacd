/-
  Selecting the `k` first elements of a stream with a heap of at most `k` of them.

  1. **The algorithm** — `offer` is one round of the loop: fill the heap while it has room, and
     once it is full let a newcomer replace the front — the retained element that orders last —
     exactly when it orders before it.  `select` offers a whole list and sorts what is retained.

  2. **One step** — everything rests on ONE step lemma, `offer_cases`: which of the four branches a
     returning round took, what the buffer became, and that it is a heap again — for every order
     that agrees with the comparator, which may have refused to answer elsewhere.

  3. **One run** — `offerAll_run` is the induction over the elements, for any invariant that the
     four branches keep.

  4. **Total orders** — the loop invariant is `Retains`: the buffer holds the `k` first of the
     elements offered so far, each once.  Selecting is then the same as sorting everything and
     keeping `k` (`select_eq_take_sort`).

  5. **Refusals** — a comparator that throws at some pairs may be spared them: a selection compares
     far fewer pairs than a sort does.  `Incomparable` and the facts around it say when the two
     part ways.
-/
import QueryLume.Foundation.StdAlgorithms
import Mathlib.Data.List.Perm.Basic
import Mathlib.Tactic.Linarith

namespace BoundedHeap

open StdAlgorithms

variable {α ε : Type}

/-! ## Strict weak orders and heaps

  What is needed of the order alone: the front of a heap is one of its last elements, and elements
  that are totally ordered have one sorted arrangement. -/

section Orders

variable {before : α → α → Prop}

theorem isHeap_nil : IsHeap before [] := fun _ hi => absurd hi (Nat.not_lt_zero _)

/-- The front of a heap orders before none of its elements. -/
theorem IsHeap.front_last (hbefore : IsStrictWeakOrder α before) {front : α} {rest : List α}
    (hheap : IsHeap before (front :: rest)) : ∀ x ∈ front :: rest, ¬ before front x := by
  have hindex : ∀ i (hi : i < (front :: rest).length), ¬ before front (front :: rest)[i] := by
    intro i
    induction i using Nat.strongRecOn with
    | ind i ih =>
      intro hi
      rcases Nat.eq_zero_or_pos i with rfl | hpos
      · exact hbefore.irrefl front
      · exact not_before_trans hbefore (ih ((i - 1) / 2) (by omega) (by omega)) (hheap i hi hpos)
  intro x hx
  obtain ⟨i, hi, rfl⟩ := List.mem_iff_getElem.mp hx
  exact hindex i hi

/-- Two arrangements in order of the same elements are equal when the order is total on them. -/
theorem eq_of_isSorted (before : α → α → Prop) {xs ys : List α}
    (htotal : ∀ a ∈ xs, ∀ b ∈ xs, a ≠ b → before a b ∨ before b a)
    (hperm : ys.Perm xs) (hxs : IsSorted before xs) (hys : IsSorted before ys) : ys = xs := by
  refine List.Perm.eq_of_pairwise (fun a b ha hb hab hba => ?_) hys hxs hperm
  by_contra hne
  rcases htotal a (hperm.mem_iff.mp ha) b hb hne with h | h
  · exact hba h
  · exact hab h

end Orders

/-! ## One round

  `offer` is the body of the loop, with `push_heap` and `pop_heap` as the library's contracts
  describe them.  What a round does is said once, in `offer_cases`; the lemmas after it are about
  the rounds that throw, and about lengths, where the order plays no part. -/

section Rounds

variable [StdAlgorithms]

/-- One round: take `row` into the heap `buffer` of at most `k` elements, or discard it.  Below
    `k` the newcomer is pushed; at `k` the front is popped and overwritten if the newcomer orders
    before it. -/
def offer (cmp : α → α → Except ε Bool) (k : Nat) (buffer : List α) (row : α) :
    Except ε (List α) :=
  if k = 0 then .ok buffer
  else if buffer.length < k then pushHeap cmp (buffer ++ [row])
  else
    match buffer with
    | [] => .ok []
    | front :: rest =>
      match cmp row front with
      | .error e => .error e
      | .ok false => .ok (front :: rest)
      | .ok true =>
        match popHeap cmp (front :: rest) with
        | .error e => .error e
        | .ok popped => pushHeap cmp (popped.dropLast ++ [row])

/-- Offer the elements one after another; the first exception ends the loop. -/
def offerAll (cmp : α → α → Except ε Bool) (k : Nat) : List α → List α → Except ε (List α)
  | buffer, [] => .ok buffer
  | buffer, row :: rows =>
    match offer cmp k buffer row with
    | .error e => .error e
    | .ok buffer' => offerAll cmp k buffer' rows

theorem foldlM_offer (cmp : α → α → Except ε Bool) (k : Nat) (rows : List α) (buffer : List α) :
    rows.foldlM (offer cmp k) buffer = offerAll cmp k buffer rows := by
  induction rows generalizing buffer with
  | nil => rfl
  | cons row rows ih =>
    rw [List.foldlM_cons, offerAll]
    cases offer cmp k buffer row with
    | error e => rfl
    | ok buffer' => exact ih buffer'

/-- Offering a list in two parts. -/
theorem offerAll_append (cmp : α → α → Except ε Bool) (k : Nat) (rows rows' buffer : List α) :
    offerAll cmp k buffer (rows ++ rows') =
      (offerAll cmp k buffer rows).bind fun retained => offerAll cmp k retained rows' := by
  induction rows generalizing buffer with
  | nil => rfl
  | cons row rows ih =>
    rw [List.cons_append, offerAll, offerAll]
    cases offer cmp k buffer row with
    | error e => rfl
    | ok buffer' => exact ih buffer'

/-- A heap without room never compares anything. -/
theorem offerAll_zero (cmp : α → α → Except ε Bool) (rows buffer : List α) :
    offerAll cmp 0 buffer rows = .ok buffer := by
  induction rows with
  | nil => rfl
  | cons row rows ih => exact ih

/-- Offer everything, then sort what is retained. -/
def select (cmp : α → α → Except ε Bool) (k : Nat) (rows : List α) : Except ε (List α) :=
  match offerAll cmp k [] rows with
  | .error e => .error e
  | .ok buffer => stdSort cmp buffer

/-- The four ways a round can return.  The buffer is described up to its arrangement; that the
    arrangement is a heap is said beside it. -/
inductive Offered (cmp : α → α → Except ε Bool) (k : Nat) (buffer : List α) (row : α)
    (buffer' : List α) : Prop where
  | skipped (hk : k = 0) (same : buffer' = buffer)
  | grown (room : buffer.length < k) (perm : buffer'.Perm (row :: buffer))
  | rejected (front : α) (rest : List α) (shape : buffer = front :: rest) (full : k ≤ buffer.length)
      (worse : cmp row front = .ok false) (same : buffer' = buffer)
  | replaced (front : α) (rest : List α) (shape : buffer = front :: rest) (full : k ≤ buffer.length)
      (better : cmp row front = .ok true) (perm : buffer'.Perm (row :: rest))

variable {cmp : α → α → Except ε Bool} {before : α → α → Prop} {k : Nat} {buffer buffer' : List α}
  {row : α}

omit [StdAlgorithms] in
/-- `back() = row` after `pop_heap`: the newcomer takes the slot the front was parked in. -/
theorem overwrite_back {front : α} {rest others : List α} (hothers : others.Perm rest)
    (hnd : (row :: front :: rest).Nodup) :
    (others ++ [row]).Perm (row :: rest) ∧ (others ++ [row]).Nodup ∧
      ∀ a ∈ others ++ [row], a ∈ row :: front :: rest := by
  have hperm : (others ++ [row]).Perm (row :: rest) :=
    (List.perm_append_singleton row others).trans (hothers.cons row)
  have hsub : (row :: rest).Sublist (row :: front :: rest) :=
    List.Sublist.cons_cons row (List.sublist_cons_self front rest)
  exact ⟨hperm, hperm.nodup_iff.mpr (hnd.sublist hsub),
    fun a ha => hsub.subset (hperm.mem_iff.mp ha)⟩

/-- **The step lemma.**  A round that returned took one of the four branches and left a heap
    again, under every strict weak order that agrees with the comparator. -/
theorem offer_cases (hbefore : IsStrictWeakOrder α before) (hnd : (row :: buffer).Nodup)
    (hagree : Agrees cmp before (· ∈ row :: buffer)) (hheap : IsHeap before buffer)
    (hok : offer cmp k buffer row = .ok buffer') :
    Offered cmp k buffer row buffer' ∧ IsHeap before buffer' := by
  have hback : ∀ xs : List α, (xs ++ [row]).Perm (row :: xs) := fun xs =>
    List.perm_append_singleton row xs
  unfold offer at hok
  split at hok
  · rename_i hk
    obtain rfl := Except.ok.inj hok
    exact ⟨.skipped hk rfl, hheap⟩
  · split at hok
    · rename_i hk hroom
      have hheap' : IsHeap before (buffer ++ [row]).dropLast := by rwa [List.dropLast_concat]
      obtain ⟨hperm, hres⟩ := pushHeap_isHeap hbefore ((hback buffer).nodup_iff.mpr hnd)
        (fun a b ha hb => hagree a b ((hback buffer).mem_iff.mp ha) ((hback buffer).mem_iff.mp hb))
        hheap' hok
      exact ⟨.grown hroom (hperm.trans (hback buffer)), hres⟩
    · rename_i hk hfull
      cases buffer with
      | nil => exact absurd (Nat.pos_of_ne_zero hk) hfull
      | cons front rest =>
        have hle : k ≤ (front :: rest).length := Nat.le_of_not_lt hfull
        simp only at hok
        cases hcmp : cmp row front with
        | error e => rw [hcmp] at hok; cases hok
        | ok better =>
          rw [hcmp] at hok
          cases better with
          | false =>
            obtain rfl := Except.ok.inj hok
            exact ⟨.rejected front rest rfl hle hcmp rfl, hheap⟩
          | true =>
            simp only at hok
            cases hpop : popHeap cmp (front :: rest) with
            | error e => rw [hpop] at hok; cases hok
            | ok popped =>
              rw [hpop] at hok
              obtain ⟨others, rfl, hothers, hheap'⟩ := popHeap_isHeap hbefore
                (List.nodup_cons.mp hnd).2
                (fun a b ha hb =>
                  hagree a b (List.mem_cons_of_mem _ ha) (List.mem_cons_of_mem _ hb)) hheap hpop
              simp only [List.dropLast_concat] at hok
              obtain ⟨hperm, hnd', hsub⟩ := overwrite_back hothers hnd
              obtain ⟨hres, hresheap⟩ := pushHeap_isHeap hbefore hnd'
                (fun a b ha hb => hagree a b (hsub a ha) (hsub b hb))
                (by rwa [List.dropLast_concat]) hok
              exact ⟨.replaced front rest rfl hle hcmp (hres.trans hperm), hresheap⟩

/-- A round cannot fail when the comparator answers about the elements at hand. -/
theorem offer_total (hbefore : IsStrictWeakOrder α before) (hnd : (row :: buffer).Nodup)
    (hagree : Agrees cmp before (· ∈ row :: buffer)) (hheap : IsHeap before buffer)
    (htotal : ∀ a ∈ row :: buffer, ∀ b ∈ row :: buffer, a ≠ b → ∃ answer, cmp a b = .ok answer) :
    ∃ buffer', offer cmp k buffer row = .ok buffer' := by
  have hback : ∀ xs : List α, (xs ++ [row]).Perm (row :: xs) := fun xs =>
    List.perm_append_singleton row xs
  unfold offer
  split
  · exact ⟨buffer, rfl⟩
  · split
    · exact rearrange_total _ ((hback buffer).nodup_iff.mpr hnd) fun a ha b hb =>
        htotal a ((hback buffer).mem_iff.mp ha) b ((hback buffer).mem_iff.mp hb)
    · cases buffer with
      | nil => exact ⟨[], rfl⟩
      | cons front rest =>
        have hne : row ≠ front := fun heq => (List.nodup_cons.mp hnd).1 (by simp [heq])
        obtain ⟨answer, hanswer⟩ := htotal row List.mem_cons_self front (by simp) hne
        simp only [hanswer]
        cases answer with
        | false => exact ⟨_, rfl⟩
        | true =>
          obtain ⟨popped, hpop⟩ := rearrange_total pop_heap (List.nodup_cons.mp hnd).2
            (fun a ha b hb =>
              htotal a (List.mem_cons_of_mem _ ha) b (List.mem_cons_of_mem _ hb))
          have hpop' : popHeap cmp (front :: rest) = .ok popped := hpop
          obtain ⟨others, rfl, hothers, -⟩ := popHeap_isHeap hbefore
            (List.nodup_cons.mp hnd).2
            (fun a b ha hb =>
              hagree a b (List.mem_cons_of_mem _ ha) (List.mem_cons_of_mem _ hb)) hheap hpop'
          simp only [hpop', List.dropLast_concat]
          obtain ⟨-, hnd', hsub⟩ := overwrite_back hothers hnd
          exact rearrange_total _ hnd' fun a ha b hb => htotal a (hsub a ha) b (hsub b hb)

omit [StdAlgorithms] in
/-- The newcomer stands at the end of the range that is made a heap. -/
theorem mem_concat_row (x : α) : x ∈ buffer ++ [row] ↔ x ∈ row :: buffer :=
  (List.perm_append_singleton row buffer).mem_iff

/-- The exception that leaves a round is one the comparator threw, on two elements at hand. -/
theorem offer_error {e : ε} (herr : offer cmp k buffer row = .error e) :
    ∃ a ∈ row :: buffer, ∃ b ∈ row :: buffer, cmp a b = .error e := by
  unfold offer at herr
  split at herr
  · cases herr
  · split at herr
    · obtain ⟨a, ha, b, hb, hcmp⟩ := rearrange_error herr
      exact ⟨a, (mem_concat_row a).mp ha, b, (mem_concat_row b).mp hb, hcmp⟩
    · cases buffer with
      | nil => cases herr
      | cons front rest =>
        simp only at herr
        cases hcmp : cmp row front with
        | error e' =>
          rw [hcmp] at herr
          have hfront : front ∈ row :: front :: rest := List.mem_cons_of_mem _ List.mem_cons_self
          exact ⟨row, List.mem_cons_self, front, hfront, by rw [hcmp, Except.error.inj herr]⟩
        | ok better =>
          rw [hcmp] at herr
          cases better with
          | false => cases herr
          | true =>
            simp only at herr
            cases hpop : popHeap cmp (front :: rest) with
            | error e' =>
              rw [hpop] at herr
              obtain ⟨a, ha, b, hb, hcmp⟩ := rearrange_error (hpop.trans herr)
              exact ⟨a, List.mem_cons_of_mem _ ha, b, List.mem_cons_of_mem _ hb, hcmp⟩
            | ok popped =>
              rw [hpop] at herr
              have hheld : ∀ x ∈ popped.dropLast ++ [row], x ∈ row :: front :: rest := by
                intro x hx
                rcases List.mem_cons.mp ((mem_concat_row x).mp hx) with rfl | hx
                · exact List.mem_cons_self
                · exact List.mem_cons_of_mem _ (rearrange_mem hpop x (List.dropLast_subset _ hx))
              obtain ⟨a, ha, b, hb, hcmp⟩ := rearrange_error herr
              exact ⟨a, hheld a ha, b, hheld b hb, hcmp⟩

/-- A round keeps nothing but the newcomer and what the buffer held, whatever the comparator is. -/
theorem offer_mem (hok : offer cmp k buffer row = .ok buffer') :
    ∀ x ∈ buffer', x ∈ row :: buffer := by
  intro x hx
  unfold offer at hok
  split at hok
  · rw [← Except.ok.inj hok] at hx
    exact List.mem_cons_of_mem _ hx
  · split at hok
    · exact (mem_concat_row x).mp (rearrange_mem hok x hx)
    · cases buffer with
      | nil =>
        rw [← Except.ok.inj hok] at hx
        cases hx
      | cons front rest =>
        simp only at hok
        cases hcmp : cmp row front with
        | error e => rw [hcmp] at hok; cases hok
        | ok better =>
          rw [hcmp] at hok
          cases better with
          | false =>
            rw [← Except.ok.inj hok] at hx
            exact List.mem_cons_of_mem _ hx
          | true =>
            simp only at hok
            cases hpop : popHeap cmp (front :: rest) with
            | error e => rw [hpop] at hok; cases hok
            | ok popped =>
              rw [hpop] at hok
              have hpushed := (mem_concat_row x).mp (rearrange_mem hok x hx)
              rcases List.mem_cons.mp hpushed with rfl | hx
              · exact List.mem_cons_self
              · exact List.mem_cons_of_mem _ (rearrange_mem hpop x (List.dropLast_subset _ hx))

/-- What the loop throws, the comparator threw on two elements it was given. -/
theorem offerAll_error {rows : List α} {e : ε} (herr : offerAll cmp k buffer rows = .error e) :
    ∃ a ∈ buffer ++ rows, ∃ b ∈ buffer ++ rows, cmp a b = .error e := by
  induction rows generalizing buffer with
  | nil => cases herr
  | cons row rows ih =>
    have hheld : ∀ x ∈ row :: buffer, x ∈ buffer ++ row :: rows := by
      intro x hx
      rcases List.mem_cons.mp hx with rfl | hx
      · exact List.mem_append_right _ List.mem_cons_self
      · exact List.mem_append_left _ hx
    rw [offerAll] at herr
    cases hoffer : offer cmp k buffer row with
    | error e' =>
      rw [hoffer] at herr
      obtain ⟨a, ha, b, hb, hcmp⟩ := offer_error hoffer
      exact ⟨a, hheld a ha, b, hheld b hb, hcmp.trans (congrArg _ (Except.error.inj herr))⟩
    | ok buffer' =>
      rw [hoffer] at herr
      have hlater : ∀ x ∈ buffer' ++ rows, x ∈ buffer ++ row :: rows := by
        intro x hx
        rcases List.mem_append.mp hx with hx | hx
        · exact hheld x (offer_mem hoffer x hx)
        · exact List.mem_append_right _ (List.mem_cons_of_mem row hx)
      obtain ⟨a, ha, b, hb, hcmp⟩ := ih herr
      exact ⟨a, hlater a ha, b, hlater b hb, hcmp⟩

/-- A round adds at most one element and never goes beyond `k`, whatever the comparator is. -/
theorem offer_length (hok : offer cmp k buffer row = .ok buffer') (hroom : buffer.length ≤ k) :
    buffer'.length ≤ buffer.length + 1 ∧ buffer'.length ≤ k := by
  unfold offer at hok
  split at hok
  · rw [← Except.ok.inj hok]; omega
  · split at hok
    · have h := rearrange_length push_heap_length hok
      rw [List.length_append, List.length_singleton] at h
      omega
    · cases buffer with
      | nil => rw [← Except.ok.inj hok]; simp
      | cons front rest =>
        simp only at hok
        cases hcmp : cmp row front with
        | error e => rw [hcmp] at hok; cases hok
        | ok better =>
          rw [hcmp] at hok
          cases better with
          | false => rw [← Except.ok.inj hok]; omega
          | true =>
            simp only at hok
            cases hpop : popHeap cmp (front :: rest) with
            | error e => rw [hpop] at hok; cases hok
            | ok popped =>
              rw [hpop] at hok
              have hpopped := rearrange_length pop_heap_length hpop
              have h := rearrange_length push_heap_length hok
              rw [List.length_append, List.length_singleton, List.length_dropLast] at h
              rw [List.length_cons] at hpopped hroom ⊢
              omega

theorem offerAll_length : ∀ {rows buffer result : List α}, offerAll cmp k buffer rows = .ok result →
    buffer.length ≤ k → result.length ≤ k
  | [], _, _, hok, hroom => by
    rw [← Except.ok.inj hok]
    exact hroom
  | row :: rows, buffer, _, hok, hroom => by
    rw [offerAll] at hok
    cases hoffer : offer cmp k buffer row with
    | error e => rw [hoffer] at hok; cases hok
    | ok buffer' =>
      rw [hoffer] at hok
      exact offerAll_length hok (offer_length hoffer hroom).2

/-- No more than `k` are selected, whatever the comparator is. -/
theorem select_length {rows selected : List α} (hok : select cmp k rows = .ok selected) :
    selected.length ≤ k := by
  unfold select at hok
  cases hbuffer : offerAll cmp k [] rows with
  | error e => rw [hbuffer] at hok; cases hok
  | ok buffer =>
    rw [hbuffer] at hok
    rw [rearrange_length sort_length hok]
    exact offerAll_length hbuffer (Nat.zero_le k)

omit [StdAlgorithms] in
/-- A round retains nothing but the newcomer and what it already held. -/
theorem Offered.subset (hoffered : Offered cmp k buffer row buffer') :
    ∀ x ∈ buffer', x ∈ row :: buffer := by
  intro x hx
  cases hoffered with
  | skipped hk same => subst same; exact List.mem_cons_of_mem _ hx
  | grown room perm => exact perm.mem_iff.mp hx
  | rejected front rest shape full worse same => subst same; exact List.mem_cons_of_mem _ hx
  | replaced front rest shape full better perm =>
    subst shape
    rcases List.mem_cons.mp (perm.mem_iff.mp hx) with rfl | h
    · exact List.mem_cons_self
    · exact List.mem_cons_of_mem _ (List.mem_cons_of_mem _ h)

omit [StdAlgorithms] in
theorem Offered.nodup (hnd : (row :: buffer).Nodup) (hoffered : Offered cmp k buffer row buffer') :
    buffer'.Nodup := by
  cases hoffered with
  | skipped hk same => subst same; exact (List.nodup_cons.mp hnd).2
  | grown room perm => exact perm.nodup_iff.mpr hnd
  | rejected front rest shape full worse same => subst same; exact (List.nodup_cons.mp hnd).2
  | replaced front rest shape full better perm =>
    subst shape
    exact perm.nodup_iff.mpr
      (hnd.sublist (List.Sublist.cons_cons row (List.sublist_cons_self front rest)))

/-! ## The whole loop

  From one round to all of them, by induction on the elements.  The invariant is a parameter of the
  run lemma, so each use below states only what one round has to keep. -/

/-- **The run lemma.**  What every round preserves holds of the whole loop over `all`, together
    with the heap condition and the provenance of the retained elements. -/
theorem offerAll_run (hbefore : IsStrictWeakOrder α before) {all : List α} (hnd : all.Nodup)
    (hagree : Agrees cmp before (· ∈ all)) (Inv : List α → List α → Prop)
    (hstep : ∀ seen row rest buffer buffer', all = seen ++ row :: rest → (row :: seen).Nodup →
      (∀ x ∈ buffer, x ∈ seen) → IsHeap before buffer → Inv seen buffer →
      Offered cmp k buffer row buffer' → IsHeap before buffer' → Inv (seen ++ [row]) buffer') :
    ∀ (rows seen buffer : List α), all = seen ++ rows → buffer.Nodup → (∀ x ∈ buffer, x ∈ seen) →
      IsHeap before buffer → Inv seen buffer →
      ∀ result, offerAll cmp k buffer rows = .ok result →
      result.Nodup ∧ (∀ x ∈ result, x ∈ all) ∧ IsHeap before result ∧ Inv all result := by
  intro rows
  induction rows with
  | nil =>
    intro seen buffer hall hbnd hsub hheap hinv result hok
    obtain rfl := Except.ok.inj hok
    rw [List.append_nil] at hall
    subst hall
    exact ⟨hbnd, hsub, hheap, hinv⟩
  | cons row rows ih =>
    intro seen buffer hall hbnd hsub hheap hinv result hok
    rw [offerAll] at hok
    cases hoffer : offer cmp k buffer row with
    | error e => rw [hoffer] at hok; cases hok
    | ok buffer' =>
      rw [hoffer] at hok
      have hnew : (row :: seen).Nodup := by
        have h : (row :: (seen ++ rows)).Nodup := (hall ▸ hnd).perm List.perm_middle
        exact h.sublist (List.Sublist.cons_cons row (List.sublist_append_left seen rows))
      have hfresh : (row :: buffer).Nodup :=
        List.nodup_cons.mpr ⟨fun hrow => (List.nodup_cons.mp hnew).1 (hsub row hrow), hbnd⟩
      have hmem : ∀ x ∈ row :: buffer, x ∈ all := fun x hx => by
        subst hall
        rcases List.mem_cons.mp hx with rfl | h
        · simp
        · exact List.mem_append.mpr (Or.inl (hsub x h))
      obtain ⟨hoffered, hheap'⟩ := offer_cases hbefore hfresh
        (fun a b ha hb => hagree a b (hmem a ha) (hmem b hb)) hheap hoffer
      have hsub' : ∀ x ∈ buffer', x ∈ seen ++ [row] := fun x hx => by
        rcases List.mem_cons.mp (hoffered.subset x hx) with rfl | h
        · simp
        · exact List.mem_append.mpr (Or.inl (hsub x h))
      exact ih (seen ++ [row]) buffer' (by simp [hall]) (hoffered.nodup hfresh) hsub' hheap'
        (hstep seen row rows buffer buffer' hall hnew hsub hheap hinv hoffered hheap') result hok

/-- The loop cannot fail either; by induction on the rows, from `offer_total`. -/
theorem offerAll_total (hbefore : IsStrictWeakOrder α before) :
    ∀ (rows buffer : List α), (buffer ++ rows).Nodup → Agrees cmp before (· ∈ buffer ++ rows) →
      (∀ a ∈ buffer ++ rows, ∀ b ∈ buffer ++ rows, a ≠ b → ∃ answer, cmp a b = .ok answer) →
      IsHeap before buffer → ∃ result, offerAll cmp k buffer rows = .ok result := by
  intro rows
  induction rows with
  | nil => intro buffer _ _ _ _; exact ⟨buffer, rfl⟩
  | cons row rows ih =>
    intro buffer hnd hagree htotal hheap
    have hmiddle : (buffer ++ row :: rows).Perm ((row :: buffer) ++ rows) := List.perm_middle
    have hnd' : ((row :: buffer) ++ rows).Nodup := hnd.perm hmiddle
    have hfresh : (row :: buffer).Nodup := hnd'.sublist (List.sublist_append_left _ _)
    have hmem : ∀ x ∈ row :: buffer, x ∈ buffer ++ row :: rows := fun x hx =>
      hmiddle.mem_iff.mpr (List.mem_append.mpr (Or.inl hx))
    have hagree' : Agrees cmp before (· ∈ row :: buffer) := fun a b ha hb =>
      hagree a b (hmem a ha) (hmem b hb)
    obtain ⟨buffer', hoffer⟩ := offer_total (k := k) hbefore hfresh hagree' hheap
      (fun a ha b hb => htotal a (hmem a ha) b (hmem b hb))
    obtain ⟨hoffered, hheap'⟩ := offer_cases hbefore hfresh hagree' hheap hoffer
    have hsub : ∀ x ∈ buffer' ++ rows, x ∈ buffer ++ row :: rows := fun x hx => by
      rcases List.mem_append.mp hx with h | h
      · exact hmem x (hoffered.subset x h)
      · simp [h]
    have hdisjoint : (buffer' ++ rows).Nodup := by
      obtain ⟨-, hrows, hne⟩ := List.nodup_append.mp hnd'
      exact List.nodup_append.mpr ⟨hoffered.nodup hfresh, hrows,
        fun a ha b hb => hne a (hoffered.subset a ha) b hb⟩
    obtain ⟨result, hresult⟩ := ih buffer' hdisjoint
      (fun a b ha hb => hagree a b (hsub a ha) (hsub b hb))
      (fun a ha b hb => htotal a (hsub a ha) b (hsub b hb)) hheap'
    exact ⟨result, by rw [offerAll, hoffer]; exact hresult⟩

end Rounds

/-! ## Total orders: the buffer holds the `k` first elements

  The invariant is `Retains`: the buffer holds the first `min k n` of the `n` elements seen so far.
  A discarded element comes after all that are retained, and since the order is transitive it stays
  so when the front is replaced by an earlier element. -/

section Selection

variable [StdAlgorithms] {cmp : α → α → Except ε Bool} {before : α → α → Prop} {k : Nat}
  {rows : List α}

/-- `before` orders any two different elements of `xs`. -/
def TotalOn (before : α → α → Prop) (xs : List α) : Prop :=
  ∀ a ∈ xs, ∀ b ∈ xs, a ≠ b → before a b ∨ before b a

/-- The comparator answers about any two different elements of `xs`. -/
def AnswersOn (cmp : α → α → Except ε Bool) (xs : List α) : Prop :=
  ∀ a ∈ xs, ∀ b ∈ xs, a ≠ b → ∃ answer, cmp a b = .ok answer

/-- The loop invariant: `buffer` holds the `min k seen.length` first of the elements seen, each
    once; every discarded element comes after every retained one. -/
def Retains (before : α → α → Prop) (k : Nat) (seen buffer : List α) : Prop :=
  buffer.length = min k seen.length ∧
    ∃ discarded, seen.Perm (buffer ++ discarded) ∧ ∀ b ∈ buffer, ∀ d ∈ discarded, before b d

/-- The comparator throws at two different elements of `xs`. -/
def Incomparable (cmp : α → α → Except ε Bool) (xs : List α) : Prop :=
  ∃ a ∈ xs, ∃ b ∈ xs, a ≠ b ∧ ∃ e, cmp a b = .error e

/-- Whether it does is found by asking about every two of them. -/
instance [DecidableEq α] (cmp : α → α → Except ε Bool) (xs : List α) :
    Decidable (Incomparable cmp xs) :=
  decidable_of_iff (xs.any (fun a => xs.any fun b =>
      !decide (a = b) && (cmp a b).toOption.isNone) = true) (by
    have hthrows : ∀ a b, (cmp a b).toOption.isNone = true ↔ ∃ e, cmp a b = .error e := by
      intro a b
      cases cmp a b with
      | error e => exact ⟨fun _ => ⟨e, rfl⟩, fun _ => rfl⟩
      | ok answer =>
        constructor
        · intro h
          cases h
        · rintro ⟨e, he⟩
          cases he
    simp only [List.any_eq_true, Bool.and_eq_true, Bool.not_eq_true', decide_eq_false_iff_not,
      hthrows]
    rfl)

omit [StdAlgorithms] in
/-- It does, or it answers about any two of them. -/
theorem not_incomparable_iff {xs : List α} : ¬ Incomparable cmp xs ↔ AnswersOn cmp xs := by
  constructor
  · intro h a ha b hb hab
    cases hcmp : cmp a b with
    | ok answer => exact ⟨answer, rfl⟩
    | error e => exact absurd ⟨a, ha, b, hb, hab, e, hcmp⟩ h
  · rintro h ⟨a, ha, b, hb, hab, e, hcmp⟩
    obtain ⟨answer, hanswer⟩ := h a ha b hb hab
    rw [hcmp] at hanswer
    cases hanswer

omit [StdAlgorithms] in
theorem AnswersOn.perm {xs ys : List α} (h : AnswersOn cmp xs) (hperm : ys.Perm xs) :
    AnswersOn cmp ys := fun a ha b hb => h a (hperm.mem_iff.mp ha) b (hperm.mem_iff.mp hb)

omit [StdAlgorithms] in
theorem Incomparable.mono {xs ys : List α} (h : Incomparable cmp xs) (hsub : ∀ x ∈ xs, x ∈ ys) :
    Incomparable cmp ys := by
  obtain ⟨a, ha, b, hb, hab⟩ := h
  exact ⟨a, hsub a ha, b, hsub b hb, hab⟩

omit [StdAlgorithms] in
/-- A retained element comes before every element seen that is not retained. -/
theorem Retains.first {seen buffer : List α} (h : Retains before k seen buffer) {x y : α}
    (hx : x ∈ buffer) (hy : y ∈ seen) (hdiscarded : y ∉ buffer) : before x y := by
  obtain ⟨-, discarded, hperm, hafter⟩ := h
  rcases List.mem_append.mp (hperm.mem_iff.mp hy) with hmem | hmem
  · exact absurd hmem hdiscarded
  · exact hafter x hx y hmem

omit [StdAlgorithms] in
/-- Nothing is discarded before the heap is full. -/
theorem Retains.full {seen buffer : List α} (h : Retains before k seen buffer) {y : α}
    (hy : y ∈ seen) (hdiscarded : y ∉ buffer) : buffer.length = k := by
  obtain ⟨hlength, discarded, hperm, -⟩ := h
  have hmem : y ∈ discarded :=
    (List.mem_append.mp (hperm.mem_iff.mp hy)).resolve_left hdiscarded
  have hcount : seen.length = buffer.length + discarded.length := by
    rw [hperm.length_eq, List.length_append]
  have hpos : 0 < discarded.length := List.length_pos_of_mem hmem
  omega

omit [StdAlgorithms] in
/-- **The invariant step.**  Each branch of a round keeps the `k` first elements. -/
theorem Retains.step (hbefore : IsStrictWeakOrder α before) {seen buffer buffer' : List α} {row : α}
    (htotal : TotalOn before (seen ++ [row])) (hagree : Agrees cmp before (· ∈ seen ++ [row]))
    (hnew : (row :: seen).Nodup) (hsub : ∀ x ∈ buffer, x ∈ seen) (hheap : IsHeap before buffer)
    (hretains : Retains before k seen buffer) (hoffered : Offered cmp k buffer row buffer') :
    Retains before k (seen ++ [row]) buffer' := by
  obtain ⟨hlen, discarded, hperm, hafter⟩ := hretains
  have hrow : row ∈ seen ++ [row] := by simp
  have hseen : ∀ x ∈ buffer, x ∈ seen ++ [row] := fun x hx => by simp [hsub x hx]
  have hcount : seen.length = buffer.length + discarded.length := by
    rw [hperm.length_eq, List.length_append]
  have hback : (seen ++ [row]).Perm (row :: seen) := List.perm_append_singleton row seen
  -- in a heap that is not the newcomer's, the front comes last among the retained elements
  have hfront : ∀ front rest, buffer = front :: rest → ∀ x ∈ buffer, x = front ∨ before x front := by
    rintro front rest rfl x hx
    by_cases heq : x = front
    · exact Or.inl heq
    · rcases htotal x (hseen x hx) front (hseen front List.mem_cons_self) heq with h | h
      · exact Or.inr h
      · exact absurd h (IsHeap.front_last hbefore hheap x hx)
  have hother : ∀ x ∈ buffer, x ≠ row := fun x hx heq =>
    (List.nodup_cons.mp hnew).1 (heq ▸ hsub x hx)
  cases hoffered with
  | skipped hk same =>
    subst hk same
    have hnil : buffer' = [] := List.eq_nil_of_length_eq_zero (by omega)
    subst hnil
    refine ⟨by simp, row :: discarded, hback.trans (hperm.cons row), by simp⟩
  | grown room perm =>
    have hnone : discarded = [] := List.eq_nil_of_length_eq_zero (by omega)
    subst hnone
    refine ⟨?_, [], ?_, by simp⟩
    · rw [perm.length_eq, List.length_cons, List.length_append, List.length_singleton]; omega
    · rw [List.append_nil] at hperm ⊢
      exact (hback.trans (hperm.cons row)).trans perm.symm
  | rejected front rest shape full worse same =>
    subst same
    have hmem : front ∈ buffer' := by rw [shape]; exact List.mem_cons_self
    have hnot : ¬ before row front := fun h => by
      have := (hagree row front hrow (hseen front hmem) (hother front hmem).symm false worse).mpr h
      cases this
    have hfr : before front row := (htotal front (hseen front hmem) row hrow
      (hother front hmem)).resolve_right hnot
    refine ⟨by rw [List.length_append, List.length_singleton]; omega, row :: discarded,
      (hback.trans (hperm.cons row)).trans List.perm_middle.symm, fun b hb d hd => ?_⟩
    rcases List.mem_cons.mp hd with rfl | hd
    · rcases hfront front rest shape b hb with rfl | h
      · exact hfr
      · exact hbefore.trans b front d h hfr
    · exact hafter b hb d hd
  | replaced front rest shape full better perm =>
    subst shape
    have hmem : front ∈ front :: rest := List.mem_cons_self
    have hrf : before row front :=
      (hagree row front hrow (hseen front hmem) (hother front hmem).symm true better).mp rfl
    refine ⟨?_, front :: discarded, ?_, fun b hb d hd => ?_⟩
    · rw [perm.length_eq, List.length_append, List.length_singleton]
      simp only [List.length_cons] at hlen full hcount ⊢
      omega
    · calc (seen ++ [row]).Perm (row :: seen) := hback
        _ |>.Perm (row :: (front :: rest ++ discarded)) := hperm.cons row
        _ |>.Perm ((row :: rest) ++ front :: discarded) := (List.perm_middle.symm.cons row)
        _ |>.Perm (buffer' ++ front :: discarded) := perm.symm.append_right _
    · have hb' : b = row ∨ b ∈ rest := List.mem_cons.mp (perm.mem_iff.mp hb)
      have hbf : before b front := by
        rcases hb' with rfl | hb'
        · exact hrf
        · rcases hfront front rest rfl b (List.mem_cons_of_mem _ hb') with rfl | h
          · have hnd : (b :: rest ++ discarded).Nodup :=
              ((List.nodup_cons.mp hnew).2).perm hperm
            exact absurd hb' (List.nodup_cons.mp (hnd.sublist (List.sublist_append_left _ _))).1
          · exact h
      rcases List.mem_cons.mp hd with rfl | hd
      · exact hbf
      · exact hbefore.trans b front d hbf (hafter front hmem d hd)

/-- The loop over `rows` retains the `k` first of them. -/
theorem offerAll_retains (hbefore : IsStrictWeakOrder α before) (hnd : rows.Nodup)
    (htotal : TotalOn before rows) (hagree : Agrees cmp before (· ∈ rows)) {buffer : List α}
    (hok : offerAll cmp k [] rows = .ok buffer) :
    buffer.Nodup ∧ (∀ x ∈ buffer, x ∈ rows) ∧ IsHeap before buffer ∧
      Retains before k rows buffer := by
  refine offerAll_run hbefore hnd hagree (Retains before k) ?_ rows [] [] rfl List.nodup_nil
    (by simp) isHeap_nil ⟨by simp, [], by simp, by simp⟩ buffer hok
  intro seen row rest buffer buffer' hall hnew hsub hheap hretains hoffered _
  have hmem : ∀ x ∈ seen ++ [row], x ∈ rows := fun x hx => by
    rw [hall, List.append_cons]
    exact List.mem_append.mpr (Or.inl hx)
  exact hretains.step hbefore (fun a ha b hb => htotal a (hmem a ha) b (hmem b hb))
    (fun a b ha hb => hagree a b (hmem a ha) (hmem b hb)) hnew hsub hheap hoffered

theorem stdSort_total {xs : List α} (hnd : xs.Nodup) (hanswers : AnswersOn cmp xs) :
    ∃ ys, stdSort cmp xs = .ok ys :=
  rearrange_total sort hnd hanswers

/-- **Selection is sort-then-take.**  On elements the comparator orders totally, the bounded heap
    gives the first `k` elements of the full sort. -/
theorem select_eq_take_sort (hbefore : IsStrictWeakOrder α before) (hnd : rows.Nodup)
    (htotal : TotalOn before rows) (hagree : Agrees cmp before (· ∈ rows))
    (hanswers : AnswersOn cmp rows) :
    ∃ sorted, stdSort cmp rows = .ok sorted ∧ select cmp k rows = .ok (sorted.take k) := by
  obtain ⟨buffer, hbuffer⟩ := offerAll_total (k := k) hbefore rows [] hnd hagree hanswers isHeap_nil
  obtain ⟨hbnd, hbsub, -, hlen, discarded, hperm, hafter⟩ :=
    offerAll_retains hbefore hnd htotal hagree hbuffer
  have hdsub : ∀ x ∈ discarded, x ∈ rows := fun x hx =>
    hperm.mem_iff.mpr (List.mem_append.mpr (Or.inr hx))
  have hdnd : discarded.Nodup := (hnd.perm hperm).sublist (List.sublist_append_right _ _)
  obtain ⟨sorted, hsorted⟩ := stdSort_total hnd hanswers
  obtain ⟨first, hfirst⟩ := stdSort_total hbnd
    (fun a ha b hb => hanswers a (hbsub a ha) b (hbsub b hb))
  obtain ⟨last, hlast⟩ := stdSort_total hdnd
    (fun a ha b hb => hanswers a (hdsub a ha) b (hdsub b hb))
  obtain ⟨hsperm, hssorted⟩ := stdSort_sorted hbefore hnd hagree hsorted
  obtain ⟨hfperm, hfsorted⟩ := stdSort_sorted hbefore hbnd
    (fun a b ha hb => hagree a b (hbsub a ha) (hbsub b hb)) hfirst
  obtain ⟨hlperm, hlsorted⟩ := stdSort_sorted hbefore hdnd
    (fun a b ha hb => hagree a b (hdsub a ha) (hdsub b hb)) hlast
  -- the sorted buffer followed by the sorted discards is in order, hence the full sort
  have hjoin : first ++ last = sorted := by
    refine eq_of_isSorted before
      (fun a ha b hb => htotal a (hsperm.mem_iff.mp ha) b (hsperm.mem_iff.mp hb))
      ((hfperm.append hlperm).trans (hperm.symm.trans hsperm.symm)) hssorted ?_
    refine List.pairwise_append.mpr ⟨hfsorted, hlsorted, fun a ha b hb hba => ?_⟩
    have hab := hafter a (hfperm.mem_iff.mp ha) b (hlperm.mem_iff.mp hb)
    exact hbefore.irrefl a (hbefore.trans a b a hab hba)
  have hcount : rows.length = buffer.length + discarded.length := by
    rw [hperm.length_eq, List.length_append]
  have htake : sorted.take k = first := by
    rw [← hjoin]
    rcases Nat.le_total k rows.length with hk | hk
    · rw [List.take_left' (by rw [hfperm.length_eq, hlen]; omega)]
    · have hnone : last = [] := List.eq_nil_of_length_eq_zero (by rw [hlperm.length_eq]; omega)
      rw [hnone, List.append_nil]
      exact List.take_of_length_le (by rw [hfperm.length_eq]; omega)
  refine ⟨sorted, hsorted, ?_⟩
  rw [select, hbuffer, htake]
  exact hfirst

/-! ### Arrival orders -/

section Arrival

variable {rows' : List α}

/-- On elements the comparator orders totally there is one sorted arrangement. -/
theorem stdSort_perm (hbefore : IsStrictWeakOrder α before) (hnd : rows.Nodup)
    (htotal : TotalOn before rows) (hagree : Agrees cmp before (· ∈ rows))
    (hanswers : AnswersOn cmp rows) (hperm : rows'.Perm rows) :
    stdSort cmp rows' = stdSort cmp rows := by
  have hnd' : rows'.Nodup := hperm.nodup_iff.mpr hnd
  have hagree' : Agrees cmp before (· ∈ rows') := fun a b ha hb =>
    hagree a b (hperm.mem_iff.mp ha) (hperm.mem_iff.mp hb)
  obtain ⟨sorted, hsort⟩ := stdSort_total hnd hanswers
  obtain ⟨sorted', hsort'⟩ := stdSort_total hnd' (hanswers.perm hperm)
  obtain ⟨hsperm, hsorted⟩ := stdSort_sorted hbefore hnd hagree hsort
  obtain ⟨hsperm', hsorted'⟩ := stdSort_sorted hbefore hnd' hagree' hsort'
  have hsame : sorted' = sorted :=
    eq_of_isSorted before
      (fun a ha b hb => htotal a (hsperm.mem_iff.mp ha) b (hsperm.mem_iff.mp hb))
      (hsperm'.trans (hperm.trans hsperm.symm)) hsorted hsorted'
  rw [hsort, hsort', hsame]

/-- And one choice of the `k` first. -/
theorem select_perm (hbefore : IsStrictWeakOrder α before) (hnd : rows.Nodup)
    (htotal : TotalOn before rows) (hagree : Agrees cmp before (· ∈ rows))
    (hanswers : AnswersOn cmp rows) (hperm : rows'.Perm rows) :
    select cmp k rows' = select cmp k rows := by
  have hmem : ∀ {a : α}, a ∈ rows' → a ∈ rows := hperm.mem_iff.mp
  obtain ⟨sorted, hsort, hselect⟩ := select_eq_take_sort (k := k) hbefore hnd htotal hagree hanswers
  obtain ⟨sorted', hsort', hselect'⟩ := select_eq_take_sort (k := k) hbefore
    (hperm.nodup_iff.mpr hnd) (fun a ha b hb => htotal a (hmem ha) b (hmem hb))
    (fun a b ha hb => hagree a b (hmem ha) (hmem hb)) (hanswers.perm hperm)
  rw [stdSort_perm hbefore hnd htotal hagree hanswers hperm, hsort] at hsort'
  rw [hselect, hselect', Except.ok.inj hsort']

end Arrival

end Selection

end BoundedHeap
