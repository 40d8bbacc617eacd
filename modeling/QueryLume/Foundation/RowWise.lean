/-
  Feeds that are made one element at a time.

  `filterMapM f` drops, replaces or rejects every element by itself.  Filtering and replacing are
  cases of it, and one after the other is a case again (`filterMapM_filterMapM`): a stack of such
  operators is ONE function of an element.

  Over a source, collecting what comes out is `List.filterMapM` (`collect_filterMapM_scan`), which
  goes through concatenation and, while nothing is rejected, through permutation.  So what a stack
  of streaming operators does to the parts of its input, or to its input in another order, is read
  off lists.
-/
import QueryLume.Foundation.Checked
import QueryLume.Foundation.Feed
import QueryLume.Foundation.Lists
import Mathlib.Data.List.Perm.Basic

/-! ## Lists

  A row function drops, replaces or rejects each element.  What comes out of a list follows the
  list: parts, rearrangements and membership carry over. -/

namespace Except

variable {α β ε : Type} {f : α → Except ε (Option β)} {xs ys : List α}

/-- One list after another. -/
theorem filterMapM_append (f : α → Except ε (Option β)) (xs ys : List α) :
    (xs ++ ys).filterMapM f = (xs.filterMapM f).bind fun first => (ys.filterMapM f).map (first ++ ·) := by
  induction xs with
  | nil =>
    show ys.filterMapM f = (ys.filterMapM f).map ([] ++ ·)
    cases ys.filterMapM f <;> rfl
  | cons x xs ih =>
    rw [List.cons_append, List.filterMapM_cons, List.filterMapM_cons, ih]
    cases f x with
    | error e => rfl
    | ok image =>
      cases image with
      | none => rfl
      | some b =>
        cases xs.filterMapM f with
        | error e => rfl
        | ok first => cases ys.filterMapM f <;> rfl

/-- The images of the elements, when none is rejected. -/
theorem filterMapM_eq_ok {bs : List β} : xs.filterMapM f = .ok bs ↔
    ∃ images, List.Forall₂ (fun x image => f x = .ok image) xs images ∧ bs = images.filterMap id := by
  induction xs generalizing bs with
  | nil =>
    constructor
    · intro h
      exact ⟨[], .nil, (Except.ok.inj h).symm⟩
    · rintro ⟨images, h, rfl⟩
      cases h
      rfl
  | cons x xs ih =>
    rw [List.filterMapM_cons]
    constructor
    · intro h
      obtain ⟨image, himage, h⟩ := bind_eq_ok h
      cases image with
      | none =>
        obtain ⟨images, hall, rfl⟩ := ih.mp h
        exact ⟨none :: images, .cons himage hall, rfl⟩
      | some b =>
        obtain ⟨rest, hrest, h⟩ := bind_eq_ok h
        obtain ⟨images, hall, rfl⟩ := ih.mp hrest
        exact ⟨some b :: images, .cons himage hall, (Except.ok.inj h).symm⟩
    · rintro ⟨_ | ⟨image, images⟩, hall, rfl⟩
      · cases hall
      · obtain ⟨himage, hall⟩ := List.forall₂_cons.mp hall
        have hrest := ih.mpr ⟨images, hall, rfl⟩
        rw [himage]
        cases image with
        | none => exact hrest
        | some b =>
          show (xs.filterMapM f).bind _ = _
          rw [hrest]
          rfl

/-- Nothing is dropped and nothing is rejected. -/
theorem filterMapM_map {g : α → β} (h : ∀ x ∈ xs, f x = .ok (some (g x))) :
    xs.filterMapM f = .ok (xs.map g) := by
  refine filterMapM_eq_ok.mpr ⟨xs.map fun x => some (g x), ?_, ?_⟩
  · exact List.forall₂_map_right_iff.mpr (List.forall₂_same.mpr h)
  · rw [List.filterMap_map]
    exact (congrFun List.filterMap_eq_map xs).symm

/-- The parts of a list have the parts of its image. -/
theorem filterMapM_flatten : ∀ {parts : List (List α)} {bs : List β},
    parts.flatten.filterMapM f = .ok bs →
    ∃ images, List.Forall₂ (fun part image => part.filterMapM f = .ok image) parts images ∧
      bs = images.flatten
  | [], _, h => ⟨[], .nil, (Except.ok.inj h).symm⟩
  | part :: parts, bs, h => by
    rw [List.flatten_cons, filterMapM_append] at h
    obtain ⟨image, himage, hthen⟩ := bind_eq_ok h
    obtain ⟨rest, hrest, rfl⟩ := map_eq_ok hthen
    obtain ⟨images, himages, rfl⟩ := filterMapM_flatten hrest
    exact ⟨image :: images, .cons himage himages, rfl⟩

/-- Rearranged elements have rearranged images, and none is rejected either. -/
theorem filterMapM_perm {bs : List β} (h : xs.filterMapM f = .ok bs) (hperm : ys.Perm xs) :
    ∃ cs, ys.filterMapM f = .ok cs ∧ cs.Perm bs := by
  obtain ⟨images, hall, rfl⟩ := filterMapM_eq_ok.mp h
  obtain ⟨images', hall', hperm'⟩ := List.perm_comp_forall₂ hperm hall
  exact ⟨images'.filterMap id, filterMapM_eq_ok.mpr ⟨images', hall', rfl⟩, hperm'.filterMap id⟩

/-- What comes out is the image of something that went in. -/
theorem filterMapM_mem {bs : List β} {b : β} (h : xs.filterMapM f = .ok bs) (hb : b ∈ bs) :
    ∃ x ∈ xs, f x = .ok (some b) := by
  obtain ⟨images, hall, rfl⟩ := filterMapM_eq_ok.mp h
  obtain ⟨image, himage, rfl⟩ := List.mem_filterMap.mp hb
  exact hall.exists_of_mem_right himage

/-- What holds between two elements in their order carries over to their images. -/
theorem filterMapM_pairwise {R : α → α → Prop} {S : β → β → Prop} {bs : List β}
    (h : xs.filterMapM f = .ok bs) (hpairwise : xs.Pairwise R)
    (himages : ∀ x ∈ xs, ∀ y ∈ xs, R x y → ∀ b c, f x = .ok (some b) → f y = .ok (some c) → S b c) :
    bs.Pairwise S := by
  induction xs generalizing bs with
  | nil =>
    obtain rfl := Except.ok.inj h
    exact .nil
  | cons x xs ih =>
    obtain ⟨hx, hrest⟩ := List.pairwise_cons.mp hpairwise
    have ih' := fun bs h => @ih bs h hrest fun y hy z hz =>
      himages y (List.mem_cons_of_mem x hy) z (List.mem_cons_of_mem x hz)
    rw [List.filterMapM_cons] at h
    obtain ⟨image, himage, h⟩ := bind_eq_ok h
    cases image with
    | none => exact ih' bs h
    | some b =>
      obtain ⟨rest, htail, h⟩ := bind_eq_ok h
      obtain rfl := Except.ok.inj h
      refine List.pairwise_cons.mpr ⟨fun c hc => ?_, ih' rest htail⟩
      obtain ⟨y, hy, hc⟩ := filterMapM_mem htail hc
      exact himages x List.mem_cons_self y (List.mem_cons_of_mem x hy) (hx y hy) b c himage hc

end Except

/-! ## Feeds

  A filter and a map are such functions, and two of them in a row are one. -/

namespace Feed

variable {α β γ ε : Type}

/-- Drop, replace or reject each element. -/
def filterMapM (f : α → Except ε (Option β)) : Feed α ε → Feed β ε
  | stop finish n => stop finish n
  | row r n rest =>
    match f r with
    | .error e => stop (some e) n
    | .ok none => rest.filterMapM f
    | .ok (some b) => row b n (rest.filterMapM f)

theorem filter_eq_filterMapM (test : α → Except ε Bool) (feed : Feed α ε) :
    feed.filter test =
      feed.filterMapM fun r => (test r).map fun accepted => if accepted then some r else none := by
  induction feed with
  | stop finish n => rfl
  | row r n rest ih =>
    rw [filter, filterMapM]
    cases test r with
    | error e => rfl
    | ok accepted =>
      cases accepted with
      | true => exact congrArg (row r n) ih
      | false => exact ih

theorem mapRows_eq_filterMapM (f : α → Except ε β) (feed : Feed α ε) :
    feed.mapRows f = feed.filterMapM fun r => (f r).map some := by
  induction feed with
  | stop finish n => rfl
  | row r n rest ih =>
    rw [mapRows, filterMapM]
    cases f r with
    | error e => rfl
    | ok b => exact congrArg (row b n) ih

/-- One such operator over another: the second sees what the first lets through. -/
def andThen (f : α → Except ε (Option β)) (g : β → Except ε (Option γ)) (r : α) :
    Except ε (Option γ) :=
  match f r with
  | .error e => .error e
  | .ok none => .ok none
  | .ok (some b) => g b

/-- What comes out of both went through a value in between. -/
theorem andThen_eq_some {f : α → Except ε (Option β)} {g : β → Except ε (Option γ)} {r : α} {c : γ}
    (h : andThen f g r = .ok (some c)) : ∃ b, f r = .ok (some b) ∧ g b = .ok (some c) := by
  unfold andThen at h
  split at h
  · cases h
  · cases h
  · rename_i b hb
    exact ⟨b, hb, h⟩

/-- **One function.**  Two operators are one. -/
theorem filterMapM_filterMapM (f : α → Except ε (Option β)) (g : β → Except ε (Option γ))
    (feed : Feed α ε) : (feed.filterMapM f).filterMapM g = feed.filterMapM (andThen f g) := by
  induction feed with
  | stop finish n => rfl
  | row r n rest ih =>
    rw [filterMapM, filterMapM, andThen]
    cases f r with
    | error e => rfl
    | ok image =>
      cases image with
      | none => exact ih
      | some b =>
        simp only [filterMapM]
        cases g b with
        | error e => rfl
        | ok image =>
          cases image with
          | none => exact ih
          | some c => exact congrArg (row c n) ih

/-- What comes out over a source. -/
theorem collect_filterMapM_scan (f : α → Except ε (Option β)) (xs : List α) (n : Nat) :
    ((scan xs n).filterMapM f).collect = xs.filterMapM f := by
  induction xs generalizing n with
  | nil => rfl
  | cons x xs ih =>
    rw [scan, filterMapM, List.filterMapM_cons]
    cases f x with
    | error e => rfl
    | ok image =>
      cases image with
      | none => exact ih (n + 1)
      | some b =>
        have hrest := ih (n + 1)
        show _ = (xs.filterMapM f).bind fun rest => .ok (b :: rest)
        rw [← hrest]
        simp only [collect, finish, rows]
        cases ((scan xs (n + 1)).filterMapM f).finish <;> rfl

/-- Where an exception at the end comes from. -/
theorem finish_filterMapM {f : α → Except ε (Option β)} {feed : Feed α ε} {e : ε}
    (h : (feed.filterMapM f).finish = some e) :
    feed.finish = some e ∨ ∃ r ∈ feed.rows, f r = .error e := by
  induction feed with
  | stop finish n => exact .inl h
  | row r n rest ih =>
    rw [filterMapM] at h
    cases himage : f r with
    | error e' =>
      rw [himage] at h
      exact .inr ⟨r, List.mem_cons_self, himage.trans (congrArg _ (Option.some.inj h))⟩
    | ok image =>
      rw [himage] at h
      have hrest : (rest.filterMapM f).finish = some e := by cases image <;> exact h
      rcases ih hrest with hend | ⟨r', hr', herror⟩
      · exact .inl hend
      · exact .inr ⟨r', List.mem_cons_of_mem r hr', herror⟩

/-- Where nothing is rejected, there is none. -/
theorem finish_filterMapM_none {f : α → Except ε (Option β)} {feed : Feed α ε}
    (hfinish : feed.finish = none) (h : ∀ r ∈ feed.rows, ∃ image, f r = .ok image) :
    (feed.filterMapM f).finish = none := by
  cases hend : (feed.filterMapM f).finish with
  | none => rfl
  | some e =>
    rcases finish_filterMapM hend with hthrows | ⟨r, hr, herror⟩
    · rw [hfinish] at hthrows
      cases hthrows
    · obtain ⟨image, himage⟩ := h r hr
      rw [herror] at himage
      cases himage

theorem filterMapM_some (feed : Feed α ε) : feed.filterMapM (fun r => .ok (some r)) = feed := by
  induction feed with
  | stop finish n => rfl
  | row r n rest ih => exact congrArg (row r n) ih

end Feed
