/-
  Computations seen by someone who does not read exceptions.

  Two outcomes are taken for the same when both are exceptions, whichever, or both are results and
  the results are related; two feeds when they give out the same elements and both end with an
  exception or neither does.  Everything feeds are put together from respects this.

  It is what can be said of two implementations of one library: which of several incomparable pairs
  a sort meets first, and so which exception it lets through, is up to the library; whether it lets
  one through may not be.
-/
import QueryLume.Foundation.Feed

/-- Both succeed, with related results, or both throw. -/
inductive SameSuccess {α β ε : Type} (S : α → β → Prop) : Except ε α → Except ε β → Prop where
  | error (e e' : ε) : SameSuccess S (.error e) (.error e')
  | ok {a : α} {b : β} (related : S a b) : SameSuccess S (.ok a) (.ok b)

namespace SameSuccess

variable {α β α' β' ε : Type} {S : α → β → Prop} {S' : α' → β' → Prop} {x : Except ε α}
  {y : Except ε β}

theorem refl {S : α → α → Prop} (h : ∀ a, S a a) : ∀ x : Except ε α, SameSuccess S x x
  | .error e => .error e e
  | .ok a => .ok (h a)

theorem bind {f : α → Except ε α'} {g : β → Except ε β'} (h : SameSuccess S x y)
    (hfg : ∀ a b, S a b → SameSuccess S' (f a) (g b)) : SameSuccess S' (x.bind f) (y.bind g) := by
  cases h with
  | error e e' => exact .error e e'
  | ok related => exact hfg _ _ related

theorem map {f : α → α'} {g : β → β'} (h : SameSuccess S x y) (hfg : ∀ a b, S a b → S' (f a) (g b)) :
    SameSuccess S' (x.map f) (y.map g) := by
  cases h with
  | error e e' => exact .error e e'
  | ok related => exact .ok (hfg _ _ related)

/-- Two results are related. -/
theorem related {a : α} {b : β} (h : SameSuccess S (.ok a : Except ε α) (.ok b)) : S a b := by
  cases h with
  | ok related => exact related

theorem mapEq {x y : Except ε α} (f : α → β) (h : SameSuccess Eq x y) :
    SameSuccess Eq (x.map f) (y.map f) := by
  refine h.map fun a b hab => ?_
  rw [hab]

end SameSuccess

namespace Feed

variable {α β ε : Type}

/-- The same elements, and an exception at the end of both or of neither. -/
inductive SameRows : Feed α ε → Feed α ε → Prop where
  | done (mark mark' : Nat) : SameRows (stop none mark) (stop none mark')
  | failed (e e' : ε) (mark mark' : Nat) : SameRows (stop (some e) mark) (stop (some e') mark')
  | row (r : α) (mark mark' : Nat) {rest rest' : Feed α ε} (below : SameRows rest rest') :
      SameRows (row r mark rest) (row r mark' rest')

namespace SameRows

variable {feed feed' : Feed α ε}

theorem rows (h : SameRows feed feed') : feed.rows = feed'.rows := by
  induction h with
  | done mark mark' | failed e e' mark mark' => rfl
  | row r mark mark' _ ih => exact congrArg (r :: ·) ih

/-- Both with an exception at the end, or neither. -/
theorem finish (h : SameRows feed feed') : feed.finish.isSome = feed'.finish.isSome := by
  induction h with
  | done mark mark' | failed e e' mark mark' => rfl
  | row r mark mark' _ ih => exact ih

/-- Collecting both succeeds on both sides or on none. -/
theorem collect (h : SameRows feed feed') : SameSuccess Eq feed.collect feed'.collect := by
  have hfinish := h.finish
  rw [Feed.collect, Feed.collect, h.rows]
  generalize feed.finish = finish at hfinish
  generalize feed'.finish = finish' at hfinish
  rcases finish with - | e
  · rcases finish' with - | e'
    · exact .ok rfl
    · cases hfinish
  · rcases finish' with - | e'
    · cases hfinish
    · exact .error e e'

theorem filter {test test' : α → Except ε Bool} (htest : ∀ r, SameSuccess Eq (test r) (test' r))
    (h : SameRows feed feed') : SameRows (feed.filter test) (feed'.filter test') := by
  induction h with
  | done mark mark' => exact .done mark mark'
  | failed e e' mark mark' => exact .failed e e' mark mark'
  | row r mark mark' _ ih =>
    have houtcome := htest r
    rw [Feed.filter, Feed.filter]
    generalize test r = outcome at houtcome
    generalize test' r = outcome' at houtcome
    cases houtcome with
    | error e e' => exact .failed e e' mark mark'
    | @ok accepted accepted' related =>
      subst related
      cases accepted with
      | true => exact .row r mark mark' ih
      | false => exact ih

theorem mapRows (f : α → Except ε β) (h : SameRows feed feed') :
    SameRows (feed.mapRows f) (feed'.mapRows f) := by
  induction h with
  | done mark mark' => exact .done mark mark'
  | failed e e' mark mark' => exact .failed e e' mark mark'
  | row r mark mark' _ ih =>
    rw [Feed.mapRows, Feed.mapRows]
    cases f r with
    | error e => exact .failed e e mark mark'
    | ok b => exact .row b mark mark' ih

/-- A limit on both sides, whatever has been read. -/
theorem limit (h : SameRows feed feed') (k mark mark' : Nat) :
    SameRows (feed.limit k mark) (feed'.limit k mark') := by
  induction h generalizing k mark mark' with
  | done n n' =>
    cases k with
    | zero => exact .done mark mark'
    | succ k => exact .done n n'
  | failed e e' n n' =>
    cases k with
    | zero => exact .done mark mark'
    | succ k => exact .failed e e' n n'
  | row r n n' _ ih =>
    cases k with
    | zero => exact .done mark mark'
    | succ k => exact .row r n n' (ih k n n')

theorem ofList (mark mark' : Nat) : ∀ xs : List α,
    SameRows (ofList mark xs : Feed α ε) (Feed.ofList mark' xs)
  | [] => .done mark mark'
  | x :: xs => .row x mark mark' (ofList mark mark' xs)

theorem scan (n : Nat) : ∀ xs : List α, SameRows (Feed.scan xs n : Feed α ε) (Feed.scan xs n) := by
  intro xs
  induction xs generalizing n with
  | nil => exact .done n n
  | cons x xs ih => exact .row x (n + 1) (n + 1) (ih (n + 1))

end SameRows

end Feed
