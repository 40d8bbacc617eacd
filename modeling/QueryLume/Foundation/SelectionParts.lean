/-
  Selecting the `k` first from parts.

  The `k` first elements of a list are among the `k` first of its parts, so they can be selected
  from those alone (`Retains.merge`), however the parts are interleaved in the list.  Elements the
  comparator orders totally have only one choice and one arrangement of it (`Retains.unique`), so a
  selection from the selections of the parts is the selection from the list (`select_parts`).

  Only the loop invariant of the heap is used, not the heap: `Retains` speaks of the elements seen,
  in any order, so the argument goes by parts that stand for what they were taken from.
-/
import QueryLume.Foundation.BoundedHeap
import Mathlib.Data.List.Perm.Subperm

namespace BoundedHeap

open StdAlgorithms

variable {α ε : Type} {before : α → α → Prop} {k : Nat}

/-! ## The elements retained -/

namespace Retains

/-- The elements may have been seen in another order. -/
theorem perm {seen seen' buffer : List α} (h : Retains before k seen buffer)
    (hperm : seen'.Perm seen) : Retains before k seen' buffer := by
  obtain ⟨hlen, discarded, hsplit, hafter⟩ := h
  refine ⟨?_, discarded, hperm.trans hsplit, hafter⟩
  rw [hlen, hperm.length_eq]

/-- **One part.**  What is retained of a part stands for the part: an element discarded there
    comes after `k` others. -/
theorem part {seen buffer more best : List α} (hnd : seen.Nodup)
    (htrans : ∀ a b c, before a b → before b c → before a c)
    (h : Retains before k seen buffer) (hbest : Retains before k (buffer ++ more) best) :
    Retains before k (seen ++ more) best := by
  obtain ⟨hlen, discarded, hperm, hafter⟩ := h
  obtain ⟨hbestLen, rest, hbestPerm, hbestAfter⟩ := hbest
  have hcount := hperm.length_eq
  have hbestCount := hbestPerm.length_eq
  simp only [List.length_append] at hcount hbestCount hbestLen
  have hall : (seen ++ more).Perm (best ++ (rest ++ discarded)) := by
    calc (seen ++ more).Perm (buffer ++ discarded ++ more) := hperm.append_right more
      _ |>.Perm (buffer ++ more ++ discarded) := by
        rw [List.append_assoc, List.append_assoc]
        exact List.perm_append_comm.append_left buffer
      _ |>.Perm (best ++ rest ++ discarded) := hbestPerm.append_right discarded
      _ |>.Perm (best ++ (rest ++ discarded)) := by rw [List.append_assoc]
  refine ⟨?_, rest ++ discarded, hall, fun b hb d hd => ?_⟩
  · rw [List.length_append]
    omega
  · rcases List.mem_append.mp hd with hd | hd
    · exact hbestAfter b hb d hd
    · -- something was discarded, so the part's buffer is full
      have hfull : buffer.length = k := by
        have := List.length_pos_of_mem hd
        omega
      by_cases hleft : ∃ t ∈ buffer, t ∈ rest
      · obtain ⟨t, ht, hrest⟩ := hleft
        exact htrans b t d (hbestAfter b hb t hrest) (hafter t ht d hd)
      · -- all of the buffer was chosen again, and there was room for nothing else
        have hsub : buffer ⊆ best := by
          intro t ht
          have hmem := hbestPerm.mem_iff.mp (List.mem_append_left more ht)
          exact (List.mem_append.mp hmem).resolve_right fun hrest => hleft ⟨t, ht, hrest⟩
        have hbufferNd : buffer.Nodup := (hnd.perm hperm).sublist (List.sublist_append_left _ _)
        have hsame : buffer.Perm best :=
          (List.subperm_of_subset hbufferNd hsub).perm_of_length_le (by omega)
        exact hafter b (hsame.mem_iff.mpr hb) d hd

/-- **All parts.**  What is retained of every part, put together, stands for all of them. -/
theorem merge {parts tops : List (List α)} (htops : List.Forall₂ (Retains before k) parts tops)
    (htrans : ∀ a b c, before a b → before b c → before a c) {more best : List α}
    (hnd : ∀ part ∈ parts, part.Nodup) (hbest : Retains before k (tops.flatten ++ more) best) :
    Retains before k (parts.flatten ++ more) best := by
  induction htops generalizing more with
  | nil => exact hbest
  | @cons part top parts tops htop _ ih =>
    obtain ⟨hpart, hparts⟩ := List.forall_mem_cons.mp hnd
    rw [List.flatten_cons, List.append_assoc] at hbest ⊢
    have hturn : ∀ xs : List α, (xs ++ (part ++ more)).Perm (part ++ (xs ++ more)) := by
      intro xs
      rw [← List.append_assoc, ← List.append_assoc]
      exact List.perm_append_comm.append_right more
    have hfirst := Retains.part hpart htrans htop hbest
    exact (ih hparts (hfirst.perm (hturn _))).perm (hturn _).symm

/-- **One choice.**  What is retained is determined. -/
theorem unique {seen buffer buffer' : List α} (hasymm : ∀ a b, before a b → ¬ before b a)
    (hnd : seen.Nodup) (h : Retains before k seen buffer) (h' : Retains before k seen buffer') :
    buffer.Perm buffer' := by
  obtain ⟨hlen, discarded, hperm, hafter⟩ := h
  have hlen' := h'.1
  have hbufferNd : buffer.Nodup := (hnd.perm hperm).sublist (List.sublist_append_left _ _)
  refine (List.subperm_of_subset hbufferNd ?_).perm_of_length_le (by omega)
  intro x hx
  by_contra hout
  -- then the other choice holds something this one discarded
  have hseen : x ∈ seen := hperm.mem_iff.mpr (List.mem_append_left _ hx)
  have hother : ∃ y ∈ buffer', y ∉ buffer := by
    by_contra hnone
    have hsub : buffer' ⊆ buffer := fun y hy => by_contra fun hyout => hnone ⟨y, hy, hyout⟩
    obtain ⟨-, discarded', hperm', -⟩ := h'
    have hnd' : buffer'.Nodup := (hnd.perm hperm').sublist (List.sublist_append_left _ _)
    have hsame := (List.subperm_of_subset hnd' hsub).perm_of_length_le (by omega)
    exact hout (hsame.mem_iff.mpr hx)
  obtain ⟨y, hy, hyout⟩ := hother
  have hyseen : y ∈ seen := by
    obtain ⟨-, discarded', hperm', -⟩ := h'
    exact hperm'.mem_iff.mpr (List.mem_append_left _ hy)
  have hxy := Retains.first ⟨hlen, discarded, hperm, hafter⟩ hx hyseen hyout
  exact hasymm x y hxy (h'.first hy hseen hout)

/-- The buffer may be arranged anyhow. -/
theorem arrange {seen buffer buffer' : List α} (h : Retains before k seen buffer)
    (hperm : buffer'.Perm buffer) : Retains before k seen buffer' := by
  obtain ⟨hlen, discarded, hsplit, hafter⟩ := h
  refine ⟨hperm.length_eq.trans hlen, discarded, hsplit.trans (hperm.symm.append_right _), ?_⟩
  intro b hb
  exact hafter b (hperm.mem_iff.mp hb)

theorem subperm {seen buffer : List α} (h : Retains before k seen buffer) :
    buffer.Subperm seen := by
  obtain ⟨-, discarded, hperm, -⟩ := h
  exact (List.sublist_append_left buffer discarded).subperm.trans hperm.symm.subperm

theorem flatten_subperm {parts tops : List (List α)}
    (htops : List.Forall₂ (Retains before k) parts tops) : tops.flatten.Subperm parts.flatten := by
  induction htops with
  | nil => exact List.Subperm.refl []
  | cons htop _ ih => exact List.Subperm.append htop.subperm ih

end Retains

/-! ## Selections -/

section Selections

variable [StdAlgorithms] {cmp : α → α → Except ε Bool} {rows : List α}

/-- What a selection that cannot fail gives out: what is retained, in order. -/
theorem select_spec (hbefore : IsStrictWeakOrder α before) (hnd : rows.Nodup)
    (htotal : TotalOn before rows) (hagree : Agrees cmp before (· ∈ rows))
    (hanswers : AnswersOn cmp rows) :
    ∃ selected, select cmp k rows = .ok selected ∧ Retains before k rows selected ∧
      IsSorted before selected := by
  obtain ⟨buffer, hbuffer⟩ := offerAll_total (k := k) hbefore rows [] hnd hagree hanswers isHeap_nil
  obtain ⟨hbnd, hbsub, -, hretains⟩ := offerAll_retains hbefore hnd htotal hagree hbuffer
  obtain ⟨selected, hsort⟩ := stdSort_total hbnd
    (fun a ha b hb => hanswers a (hbsub a ha) b (hbsub b hb))
  obtain ⟨hperm, hsorted⟩ := stdSort_sorted hbefore hbnd
    (fun a b ha hb => hagree a b (hbsub a ha) (hbsub b hb)) hsort
  refine ⟨selected, ?_, hretains.arrange hperm, hsorted⟩
  rw [select, hbuffer]
  exact hsort

/-- **Selecting from selections.**  What is selected from the selections of the parts is what is
    selected from the whole, in whatever order its elements stand. -/
theorem select_parts (hbefore : IsStrictWeakOrder α before) (hnd : rows.Nodup)
    (htotal : TotalOn before rows) (hagree : Agrees cmp before (· ∈ rows))
    (hanswers : AnswersOn cmp rows) {parts : List (List α)} (hparts : parts.flatten.Perm rows) :
    ∃ tops, List.Forall₂ (fun part top => select cmp k part = .ok top) parts tops ∧
      select cmp k tops.flatten = select cmp k rows := by
  have hasymm : ∀ a b, before a b → ¬ before b a := fun a b hab hba =>
    hbefore.irrefl a (hbefore.trans a b a hab hba)
  -- every part holds some of the elements
  have hsub : ∀ part ∈ parts, part ⊆ rows := fun part hpart x hx =>
    hparts.mem_iff.mp (List.mem_flatten.mpr ⟨part, hpart, hx⟩)
  have hpartsNd : ∀ part ∈ parts, part.Nodup :=
    (List.nodup_flatten.mp (hparts.nodup_iff.mpr hnd)).1
  have hspec : ∀ {xs : List α}, xs.Nodup → xs ⊆ rows → ∃ selected,
      select cmp k xs = .ok selected ∧ Retains before k xs selected ∧ IsSorted before selected :=
    fun hxs hin => select_spec hbefore hxs (fun a ha b hb => htotal a (hin ha) b (hin hb))
      (fun a b ha hb => hagree a b (hin ha) (hin hb))
      (fun a ha b hb => hanswers a (hin ha) b (hin hb))
  obtain ⟨tops, htops⟩ : ∃ tops, List.Forall₂ (fun part top => select cmp k part = .ok top ∧
      Retains before k part top) parts tops := by
    refine List.Forall₂.exists_of_forall fun part hpart => ?_
    obtain ⟨top, hselect, hretains, -⟩ := hspec (hpartsNd part hpart) (hsub part hpart)
    exact ⟨top, hselect, hretains⟩
  have hretains : List.Forall₂ (Retains before k) parts tops := htops.imp fun _ _ h => h.2
  refine ⟨tops, htops.imp fun _ _ h => h.1, ?_⟩
  have htopsSub := (Retains.flatten_subperm hretains).trans hparts.subperm
  have htopsNd : tops.flatten.Nodup := by
    obtain ⟨xs, hperm, hxs⟩ := htopsSub
    exact (hnd.sublist hxs).perm hperm
  obtain ⟨best, hbest, hbestRetains, hbestSorted⟩ := hspec htopsNd htopsSub.subset
  obtain ⟨selected, hselect, hselectRetains, hselectSorted⟩ := hspec hnd (List.Subset.refl rows)
  have hmerged : Retains before k parts.flatten best := by
    rw [← List.append_nil tops.flatten] at hbestRetains
    have h := Retains.merge hretains hbefore.trans hpartsNd hbestRetains
    rwa [List.append_nil] at h
  have hperm := (hmerged.perm hparts.symm).unique hasymm hnd hselectRetains
  have hsame : best = selected :=
    eq_of_isSorted before (fun a ha b hb => htotal a (hselectRetains.subperm.subset ha) b
      (hselectRetains.subperm.subset hb)) hperm hselectSorted hbestSorted
  rw [hbest, hselect, hsame]

end Selections

end BoundedHeap
