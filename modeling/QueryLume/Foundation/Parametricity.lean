/-
  Feeds and heaps cannot look inside their elements.

  Whatever relation holds between the elements of two feeds, tests, functions and comparators that
  do not tell related elements apart take related feeds to related feeds, with the same marks and
  the same end.  There is one lemma for each operator of `Feed.lean`, one for each source, and one
  for a round of the heap; for the library algorithms it is `rearrange_forall₂`.

  The relation is a parameter.  Two runs over different inputs are compared by choosing it:
  agreement in some of the fields, other fields beside those that matter, a renaming.
-/
import QueryLume.Foundation.BoundedHeap
import QueryLume.Foundation.Feed

open StdAlgorithms

variable {α α' β β' ε : Type}

namespace Feed

/-- The same events, with related elements. -/
inductive Related (R : α → α' → Prop) : Feed α ε → Feed α' ε → Prop where
  | stop (finish : Option ε) (mark : Nat) : Related R (stop finish mark) (stop finish mark)
  | row {r : α} {r' : α'} (mark : Nat) {rest : Feed α ε} {rest' : Feed α' ε} (related : R r r')
      (below : Related R rest rest') : Related R (row r mark rest) (row r' mark rest')

variable {R : α → α' → Prop} {S : β → β' → Prop} {feed : Feed α ε} {feed' : Feed α' ε}

theorem Related.rows (h : Related R feed feed') : List.Forall₂ R feed.rows feed'.rows := by
  induction h with
  | stop finish mark => exact .nil
  | row mark related _ ih => exact .cons related ih

theorem Related.finish (h : Related R feed feed') : feed.finish = feed'.finish := by
  induction h with
  | stop finish mark => rfl
  | row mark _ _ ih => exact ih

theorem Related.total (h : Related R feed feed') : feed.total = feed'.total := by
  induction h with
  | stop finish mark => rfl
  | row mark _ _ ih => exact ih

theorem Related.filter {test : α → Except ε Bool} {test' : α' → Except ε Bool}
    (htest : ∀ r r', R r r' → test r = test' r') (h : Related R feed feed') :
    Related R (feed.filter test) (feed'.filter test') := by
  induction h with
  | stop finish mark => exact .stop finish mark
  | @row r r' mark rest rest' related below ih =>
    rw [Feed.filter, Feed.filter, htest r r' related]
    cases test' r' with
    | error e => exact .stop (some e) mark
    | ok accepted =>
      cases accepted with
      | true => exact .row mark related ih
      | false => exact ih

/-- A function that makes related elements of related ones, and throws alike. -/
theorem Related.mapRows {f : α → Except ε β} {f' : α' → Except ε β'}
    (hf : ∀ r r', R r r' → SameOutcome S (f r) (f' r')) (h : Related R feed feed') :
    Related S (feed.mapRows f) (feed'.mapRows f') := by
  induction h with
  | stop finish mark => exact .stop finish mark
  | @row r r' mark rest rest' related below ih =>
    have houtcome := hf r r' related
    rw [Feed.mapRows, Feed.mapRows]
    generalize f r = outcome at houtcome
    generalize f' r' = outcome' at houtcome
    cases houtcome with
    | error e => exact .stop (some e) mark
    | ok mapped => exact .row mark mapped ih

theorem Related.limit (h : Related R feed feed') (k mark : Nat) :
    Related R (feed.limit k mark) (feed'.limit k mark) := by
  induction h generalizing k mark with
  | stop finish n =>
    cases k with
    | zero => exact .stop none mark
    | succ k => exact .stop finish n
  | row n related _ ih =>
    cases k with
    | zero => exact .stop none mark
    | succ k => exact .row n related (ih k n)

theorem related_ofList (mark : Nat) {xs : List α} {xs' : List α'} (h : List.Forall₂ R xs xs') :
    Related R (ofList mark xs : Feed α ε) (ofList mark xs') := by
  induction h with
  | nil => exact .stop none mark
  | cons related _ ih => exact .row mark related ih

theorem related_scan {xs : List α} {xs' : List α'} (h : List.Forall₂ R xs xs') (n : Nat) :
    Related R (scan xs n : Feed α ε) (scan xs' n) := by
  induction h generalizing n with
  | nil => exact .stop none n
  | cons related _ ih => exact .row (n + 1) related (ih (n + 1))

end Feed

namespace BoundedHeap

variable [StdAlgorithms] {R : α → α' → Prop} {cmp : α → α → Except ε Bool}
  {cmp' : α' → α' → Except ε Bool}

/-- One round on related heaps. -/
theorem offer_related (hcmp : ∀ a a' b b', R a a' → R b b' → cmp a b = cmp' a' b') (k : Nat)
    {buffer : List α} {buffer' : List α'} {row : α} {row' : α'}
    (hbuffer : List.Forall₂ R buffer buffer') (hrow : R row row') :
    SameOutcome (List.Forall₂ R) (offer cmp k buffer row) (offer cmp' k buffer' row') := by
  have hback : ∀ {xs : List α} {xs' : List α'}, List.Forall₂ R xs xs' →
      SameOutcome (List.Forall₂ R) (pushHeap cmp (xs ++ [row])) (pushHeap cmp' (xs' ++ [row'])) :=
    fun h => rearrange_forall₂ push_heap hcmp (h.append (.cons hrow .nil))
  unfold offer
  rw [hbuffer.length_eq]
  split
  · exact .ok hbuffer
  · split
    · exact hback hbuffer
    · cases hbuffer with
      | nil => exact .ok .nil
      | @cons front front' rest rest' hfront hrest =>
        simp only [hcmp row row' front front' hrow hfront]
        cases cmp' row' front' with
        | error e => exact .error e
        | ok better =>
          cases better with
          | false => exact .ok (.cons hfront hrest)
          | true =>
            have hpop : SameOutcome (List.Forall₂ R) (popHeap cmp (front :: rest))
                (popHeap cmp' (front' :: rest')) :=
              rearrange_forall₂ pop_heap hcmp (.cons hfront hrest)
            simp only
            generalize popHeap cmp (front :: rest) = popped at hpop
            generalize popHeap cmp' (front' :: rest') = popped' at hpop
            cases hpop with
            | error e => exact .error e
            | ok hpopped => exact hback hpopped.dropLast

end BoundedHeap
