/-
  Insertion sort with a comparator that may throw: the plain way to arrange a list, against which
  the library sort is compared.

  It runs without a library: it has no instance argument, it is structural, and it asks about one
  element after another.  So it can stand in a specification, or in a condition that is to be
  decided.

  Three facts are all that is used of it: it commutes with images (`sortBy_map`), it returns when
  the comparator answers (`sortBy_total`), and what it returns is sorted by every strict weak order
  that agrees with the comparator (`sortBy_sorted`).
-/
import QueryLume.Foundation.BoundedHeap

namespace InsertionSort

open StdAlgorithms

variable {α β ε : Type}

/-- Insert before the first element it orders before. -/
def insertBy (cmp : α → α → Except ε Bool) (x : α) : List α → Except ε (List α)
  | [] => .ok [x]
  | y :: ys =>
    match cmp x y with
    | .error e => .error e
    | .ok true => .ok (x :: y :: ys)
    | .ok false => (insertBy cmp x ys).map (y :: ·)

/-- Sort by inserting the elements one after another, the last one first. -/
def sortBy (cmp : α → α → Except ε Bool) : List α → Except ε (List α)
  | [] => .ok []
  | x :: xs =>
    match sortBy cmp xs with
    | .error e => .error e
    | .ok ys => insertBy cmp x ys

/-! ## Images -/

theorem insertBy_map (cmp : β → β → Except ε Bool) (f : α → β) (x : α) (xs : List α) :
    insertBy cmp (f x) (xs.map f) = (insertBy (fun a b => cmp (f a) (f b)) x xs).map (List.map f) := by
  induction xs with
  | nil => rfl
  | cons y ys ih =>
    rw [List.map_cons, insertBy, insertBy]
    cases cmp (f x) (f y) with
    | error e => rfl
    | ok answer =>
      cases answer with
      | true => rfl
      | false =>
        simp only [ih]
        cases insertBy (fun a b => cmp (f a) (f b)) x ys <;> rfl

/-- Sorting images is sorting by what the comparator says of the images. -/
theorem sortBy_map (cmp : β → β → Except ε Bool) (f : α → β) (xs : List α) :
    sortBy cmp (xs.map f) = (sortBy (fun a b => cmp (f a) (f b)) xs).map (List.map f) := by
  induction xs with
  | nil => rfl
  | cons x xs ih =>
    rw [List.map_cons, sortBy, sortBy, ih]
    cases sortBy (fun a b => cmp (f a) (f b)) xs with
    | error e => rfl
    | ok ys => exact insertBy_map cmp f x ys

/-! ## When it returns -/

section Total

variable {cmp : α → α → Except ε Bool}

/-- Inserting returns when the comparator answers about the newcomer. -/
theorem insertBy_total {x : α} {xs : List α}
    (hanswers : ∀ y ∈ xs, ∃ answer, cmp x y = .ok answer) :
    ∃ ys, insertBy cmp x xs = .ok ys ∧ ys.Perm (x :: xs) := by
  induction xs with
  | nil => exact ⟨[x], rfl, List.Perm.refl _⟩
  | cons y ys ih =>
    obtain ⟨answer, hcmp⟩ := hanswers y List.mem_cons_self
    rw [insertBy, hcmp]
    cases answer with
    | true => exact ⟨x :: y :: ys, rfl, List.Perm.refl _⟩
    | false =>
      obtain ⟨zs, hzs, hperm⟩ := ih fun z hz => hanswers z (List.mem_cons_of_mem _ hz)
      refine ⟨y :: zs, ?_, (hperm.cons y).trans (List.Perm.swap x y ys)⟩
      show (insertBy cmp x ys).map (y :: ·) = _
      rw [hzs]
      rfl

/-- A comparator that answers about any two different elements of a list does not keep the list
    from being sorted. -/
theorem sortBy_total {xs : List α} (hnd : xs.Nodup) (hanswers : BoundedHeap.AnswersOn cmp xs) :
    ∃ ys, sortBy cmp xs = .ok ys ∧ ys.Perm xs := by
  induction xs with
  | nil => exact ⟨[], rfl, List.Perm.refl _⟩
  | cons x xs ih =>
    obtain ⟨hnew, hnd'⟩ := List.nodup_cons.mp hnd
    obtain ⟨ys, hys, hperm⟩ := ih hnd' fun a ha b hb =>
      hanswers a (List.mem_cons_of_mem _ ha) b (List.mem_cons_of_mem _ hb)
    have hinsert : ∀ y ∈ ys, ∃ answer, cmp x y = .ok answer := by
      intro y hy
      have hmem : y ∈ xs := hperm.mem_iff.mp hy
      exact hanswers x List.mem_cons_self y (List.mem_cons_of_mem _ hmem) (by
        rintro rfl
        exact hnew hmem)
    obtain ⟨zs, hzs, hperm'⟩ := insertBy_total hinsert
    exact ⟨zs, by rw [sortBy, hys]; exact hzs, hperm'.trans (hperm.cons x)⟩

end Total

/-! ## Correctness -/

section Correct

variable {cmp : α → α → Except ε Bool} {before : α → α → Prop}

/-- Inserting keeps a sorted list sorted; the newcomer goes before the first element it orders
    before. -/
theorem insertBy_sorted (hbefore : IsStrictWeakOrder α before) {x : α} {xs ys : List α}
    (hnew : x ∉ xs) (hagree : Agrees cmp before (· ∈ x :: xs)) (hsorted : IsSorted before xs)
    (hok : insertBy cmp x xs = .ok ys) : ys.Perm (x :: xs) ∧ IsSorted before ys := by
  induction xs generalizing ys with
  | nil =>
    rw [← Except.ok.inj hok]
    exact ⟨List.Perm.refl _, List.pairwise_singleton _ _⟩
  | cons y xs ih =>
    obtain ⟨hy, hxs⟩ := List.pairwise_cons.mp hsorted
    obtain ⟨hne, hnew'⟩ := not_or.mp (fun h => hnew (List.mem_cons.mpr h))
    have hanswer := hagree x y List.mem_cons_self (List.mem_cons_of_mem _ List.mem_cons_self) hne
    rw [insertBy] at hok
    cases hcmp : cmp x y with
    | error e => rw [hcmp] at hok; cases hok
    | ok answer =>
      rw [hcmp] at hok
      cases answer with
      | true =>
        -- `x` orders before `y`, hence before everything after `y`
        have hxy : before x y := (hanswer true hcmp).mp rfl
        rw [← Except.ok.inj hok]
        refine ⟨List.Perm.refl _, List.pairwise_cons.mpr ⟨fun z hz hzx => ?_, hsorted⟩⟩
        have hzy : before z y := hbefore.trans z x y hzx hxy
        rcases List.mem_cons.mp hz with rfl | hz
        · exact hbefore.irrefl z hzy
        · exact hy z hz hzy
      | false =>
        have hxy : ¬ before x y := by
          intro h
          cases (hanswer false hcmp).mpr h
        cases hrest : insertBy cmp x xs with
        | error e => simp only [hrest] at hok; cases hok
        | ok zs =>
          simp only [hrest] at hok
          rw [← Except.ok.inj hok]
          have hsub : ∀ {a}, a ∈ x :: xs → a ∈ x :: y :: xs := by
            intro a ha
            rcases List.mem_cons.mp ha with rfl | ha
            · exact List.mem_cons_self
            · exact List.mem_cons_of_mem _ (List.mem_cons_of_mem _ ha)
          obtain ⟨hperm, hzs⟩ := ih hnew' (fun a b ha hb => hagree a b (hsub ha) (hsub hb)) hxs hrest
          refine ⟨(hperm.cons y).trans (List.Perm.swap x y xs),
            List.pairwise_cons.mpr ⟨fun z hz => ?_, hzs⟩⟩
          rcases List.mem_cons.mp (hperm.mem_iff.mp hz) with rfl | hz
          · exact hxy
          · exact hy z hz

/-- **Correctness.**  A sort that returned has sorted its input under every strict weak order
    that agrees with the comparator. -/
theorem sortBy_sorted (hbefore : IsStrictWeakOrder α before) {xs ys : List α} (hnd : xs.Nodup)
    (hagree : Agrees cmp before (· ∈ xs)) (hok : sortBy cmp xs = .ok ys) :
    ys.Perm xs ∧ IsSorted before ys := by
  induction xs generalizing ys with
  | nil =>
    rw [← Except.ok.inj hok]
    exact ⟨List.Perm.refl _, List.Pairwise.nil⟩
  | cons x xs ih =>
    obtain ⟨hnew, hnd'⟩ := List.nodup_cons.mp hnd
    rw [sortBy] at hok
    cases hrest : sortBy cmp xs with
    | error e => rw [hrest] at hok; cases hok
    | ok zs =>
      rw [hrest] at hok
      obtain ⟨hperm, hzs⟩ := ih hnd' (fun a b ha hb =>
        hagree a b (List.mem_cons_of_mem _ ha) (List.mem_cons_of_mem _ hb)) hrest
      have hcons : (x :: zs).Perm (x :: xs) := hperm.cons x
      obtain ⟨hperm', hys⟩ := insertBy_sorted hbefore (fun hx => hnew (hperm.mem_iff.mp hx))
        (fun a b ha hb => hagree a b (hcons.mem_iff.mp ha) (hcons.mem_iff.mp hb)) hzs hok
      exact ⟨hperm'.trans hcons, hys⟩

end Correct

end InsertionSort
