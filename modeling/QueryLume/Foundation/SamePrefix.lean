/-
  Feeds of sources that begin alike.

  Two feeds that agree up to mark `n` cannot be told apart by a consumer who stops before more than
  `n` elements of the source have been read (`SameUpTo`): what comes later on one side, or whether
  anything comes at all on the other, is left open.  The operators keep this, and two sources with
  the same first `n` elements have it, as long as the first does not end there.

  The second relation is between a source and a longer one: what the longer one gives continues what
  the shorter one gave (`Continues`).
-/
import QueryLume.Foundation.FeedProgress

namespace Feed

variable {α β ε : Type}

/-- No event before mark `n`. -/
def From (n : Nat) : Feed α ε → Prop
  | stop _ m => n ≤ m
  | row _ m rest => n ≤ m ∧ rest.From n

/-- The same events up to mark `n`; the first feed goes on beyond it where the second differs.
    The relation is not symmetric: the second may have ended there. -/
inductive SameUpTo (n : Nat) : Feed α ε → Feed α ε → Prop where
  | stop (finish : Option ε) {mark : Nat} (within : mark ≤ n) :
      SameUpTo n (stop finish mark) (stop finish mark)
  | row (r : α) {mark : Nat} (within : mark ≤ n) {rest rest' : Feed α ε}
      (same : SameUpTo n rest rest') : SameUpTo n (row r mark rest) (row r mark rest')
  | beyond {feed : Feed α ε} (feed' : Feed α ε) (late : feed.From (n + 1)) : SameUpTo n feed feed'

/-! ## Late feeds

  What comes after mark `n` is of no interest to a consumer that stops there. -/

section From

variable {feed : Feed α ε} {n : Nat}

theorem From.total (h : feed.From n) : n ≤ feed.total := by
  induction feed with
  | stop finish m => exact h
  | row r m rest ih => exact ih h.2

theorem From.filter (h : feed.From n) (test : α → Except ε Bool) : (feed.filter test).From n := by
  induction feed with
  | stop finish m => exact h
  | row r m rest ih =>
    rw [Feed.filter]
    cases test r with
    | error e => exact h.1
    | ok accepted =>
      cases accepted with
      | true => exact ⟨h.1, ih h.2⟩
      | false => exact ih h.2

theorem From.mapRows (h : feed.From n) (f : α → Except ε β) : (feed.mapRows f).From n := by
  induction feed with
  | stop finish m => exact h
  | row r m rest ih =>
    rw [Feed.mapRows]
    cases f r with
    | error e => exact h.1
    | ok b => exact ⟨h.1, ih h.2⟩

theorem From.limit (h : feed.From n) (k : Nat) {mark : Nat} (hmark : n ≤ mark) :
    (feed.limit k mark).From n := by
  induction feed generalizing k mark with
  | stop finish m =>
    cases k with
    | zero => exact hmark
    | succ k => exact h
  | row r m rest ih =>
    cases k with
    | zero => exact hmark
    | succ k => exact ⟨h.1, ih h.2 k h.1⟩

theorem from_scan (xs : List α) {n i : Nat} (h : n ≤ i) : (scan xs i : Feed α ε).From n := by
  induction xs generalizing i with
  | nil => exact h
  | cons x xs ih => exact ⟨Nat.le_succ_of_le h, ih (Nat.le_succ_of_le h)⟩

theorem AtMark.from {mark : Nat} (h : feed.AtMark mark) (hle : n ≤ mark) : feed.From n := by
  induction feed with
  | stop finish m =>
    obtain rfl : m = mark := h
    exact hle
  | row r m rest ih =>
    obtain ⟨rfl, hrest⟩ := h
    exact ⟨hle, ih hrest⟩

end From

/-! ## Feeds that agree up to a mark

  Kept by all operators that act element by element, and by a limit.  An operator that drains its
  feed needs a feed of which everything lies before the mark. -/

section SameUpTo

variable {feed feed' : Feed α ε} {n : Nat}

/-- A consumer who reads the first feed to its end reads no further than `n` in either. -/
theorem SameUpTo.eq (h : SameUpTo n feed feed') (htotal : feed.total ≤ n) : feed' = feed := by
  induction h with
  | stop finish within => rfl
  | row r within _ ih => rw [ih htotal]
  | beyond feed' late =>
    have hlate := late.total
    omega

theorem sameUpTo_stop (n : Nat) (finish : Option ε) (mark : Nat) :
    SameUpTo n (stop finish mark : Feed α ε) (stop finish mark) := by
  by_cases hmark : mark ≤ n
  · exact .stop finish hmark
  · exact .beyond _ (Nat.lt_of_not_le hmark)

/-- The test is made on the same elements as long as it matters. -/
theorem SameUpTo.filter (h : SameUpTo n feed feed') (test : α → Except ε Bool) :
    SameUpTo n (feed.filter test) (feed'.filter test) := by
  induction h with
  | stop finish within => exact .stop finish within
  | row r within _ ih =>
    rw [Feed.filter, Feed.filter]
    cases test r with
    | error e => exact .stop (some e) within
    | ok accepted =>
      cases accepted with
      | true => exact .row r within ih
      | false => exact ih
  | beyond feed' late => exact .beyond _ (late.filter test)

theorem SameUpTo.mapRows (h : SameUpTo n feed feed') (f : α → Except ε β) :
    SameUpTo n (feed.mapRows f) (feed'.mapRows f) := by
  induction h with
  | stop finish within => exact .stop finish within
  | row r within _ ih =>
    rw [Feed.mapRows, Feed.mapRows]
    cases f r with
    | error e => exact .stop (some e) within
    | ok b => exact .row b within ih
  | beyond feed' late => exact .beyond _ (late.mapRows f)

theorem limit_zero (mark : Nat) (feed : Feed α ε) : feed.limit 0 mark = .stop none mark := by
  cases feed <;> rfl

/-- A limit that is reached before the mark hides the difference. -/
theorem SameUpTo.limit (h : SameUpTo n feed feed') (k mark : Nat) :
    SameUpTo n (feed.limit k mark) (feed'.limit k mark) := by
  induction h generalizing k mark with
  | stop finish within =>
    cases k with
    | zero => exact sameUpTo_stop n none mark
    | succ k => exact .stop finish within
  | row r within _ ih =>
    cases k with
    | zero => exact sameUpTo_stop n none mark
    | succ k => exact .row r within (ih k _)
  | @beyond feed feed' late =>
    cases k with
    | zero =>
      rw [limit_zero, limit_zero]
      exact sameUpTo_stop n none mark
    | succ k =>
      refine .beyond _ ?_
      cases feed with
      | stop finish m => exact late
      | row r m rest => exact ⟨late.1, late.2.limit k late.1⟩

/-- A feed with all its events at one mark agrees with itself. -/
theorem AtMark.sameUpTo {mark : Nat} (h : feed.AtMark mark) : SameUpTo n feed feed := by
  by_cases hmark : mark ≤ n
  · induction feed with
    | stop finish m =>
      obtain rfl : m = mark := h
      exact .stop finish hmark
    | row r m rest ih =>
      obtain ⟨rfl, hrest⟩ := h
      exact .row r hmark (ih hrest)
  · exact .beyond _ (h.from (Nat.lt_of_not_le hmark))

/-- Two sources with the same first elements, of which the first has more. -/
theorem sameUpTo_scan {xs ys : List α} {n i : Nat} (hmore : n < i + xs.length)
    (hsame : ys.take (n - i) = xs.take (n - i)) :
    SameUpTo n (scan xs i : Feed α ε) (scan ys i) := by
  induction xs generalizing ys i with
  | nil => exact .beyond _ hmore
  | cons x xs ih =>
    by_cases hi : i < n
    · obtain ⟨k, hk⟩ : ∃ k, n - i = k + 1 := ⟨n - i - 1, by omega⟩
      rw [hk, List.take_succ_cons] at hsame
      obtain _ | ⟨y, ys⟩ := ys
      · cases hsame
      · rw [List.take_succ_cons] at hsame
        obtain ⟨rfl, hrest⟩ := List.cons.inj hsame
        have hn : n - (i + 1) = k := by omega
        rw [List.length_cons] at hmore
        exact .row y hi (ih (by omega) (by rw [hn]; exact hrest))
    · refine .beyond _ ⟨by omega, from_scan xs (by omega)⟩

end SameUpTo

/-! ## Feeds that continue others

  The other comparison of two sources: the same elements, and then more of them. -/

/-- The second feed begins as the first and may go on where the first ends; an exception of the
    first ends both. -/
inductive Continues : Feed α ε → Feed α ε → Prop where
  | stop (mark : Nat) (feed : Feed α ε) : Continues (stop none mark) feed
  | throw (e : ε) (mark : Nat) : Continues (stop (some e) mark) (stop (some e) mark)
  | row (r : α) (mark : Nat) {rest rest' : Feed α ε} (continues : Continues rest rest') :
      Continues (row r mark rest) (row r mark rest')

section Continues

variable {feed feed' : Feed α ε}

theorem Continues.rows (h : Continues feed feed') : feed.rows <+: feed'.rows := by
  induction h with
  | stop mark feed => exact List.nil_prefix
  | throw e mark => exact List.prefix_refl _
  | row r mark _ ih => exact (List.prefix_cons_inj r).mpr ih

/-- What the shorter one throws, the longer one throws. -/
theorem Continues.finish (h : Continues feed feed') {e : ε} (hfinish : feed.finish = some e) :
    feed'.finish = some e := by
  induction h with
  | stop mark feed => cases hfinish
  | throw e' mark => exact hfinish
  | row r mark _ ih => exact ih hfinish

/-- Collecting both: exceptions come through, and what is collected is continued. -/
theorem Continues.collect (h : Continues feed feed') :
    (∀ e, feed.collect = .error e → feed'.collect = .error e) ∧
    ∀ xs, feed'.collect = .ok xs → ∃ earlier, feed.collect = .ok earlier ∧ earlier <+: xs := by
  rw [Feed.collect, Feed.collect]
  cases hfinish : feed.finish with
  | some e =>
    rw [h.finish hfinish]
    exact ⟨fun _ herror => herror, fun _ hok => (by cases hok)⟩
  | none =>
    refine ⟨fun _ herror => (by cases herror), fun xs hok => ⟨feed.rows, rfl, ?_⟩⟩
    cases hfinish' : feed'.finish with
    | some e => rw [hfinish'] at hok; cases hok
    | none =>
      rw [hfinish'] at hok
      exact Except.ok.inj hok ▸ h.rows

theorem Continues.filter (h : Continues feed feed') (test : α → Except ε Bool) :
    Continues (feed.filter test) (feed'.filter test) := by
  induction h with
  | stop mark feed => exact .stop mark _
  | throw e mark => exact .throw e mark
  | row r mark _ ih =>
    rw [Feed.filter, Feed.filter]
    cases test r with
    | error e => exact .throw e mark
    | ok accepted =>
      cases accepted with
      | true => exact .row r mark ih
      | false => exact ih

theorem Continues.mapRows (h : Continues feed feed') (f : α → Except ε β) :
    Continues (feed.mapRows f) (feed'.mapRows f) := by
  induction h with
  | stop mark feed => exact .stop mark _
  | throw e mark => exact .throw e mark
  | row r mark _ ih =>
    rw [Feed.mapRows, Feed.mapRows]
    cases f r with
    | error e => exact .throw e mark
    | ok b => exact .row b mark ih

theorem Continues.limit (h : Continues feed feed') (k mark : Nat) :
    Continues (feed.limit k mark) (feed'.limit k mark) := by
  induction h generalizing k mark with
  | stop m feed =>
    cases k with
    | zero => exact .stop mark _
    | succ k => exact .stop m _
  | throw e m =>
    cases k with
    | zero => exact .stop mark _
    | succ k => exact .throw e m
  | row r m _ ih =>
    cases k with
    | zero => exact .stop mark _
    | succ k => exact .row r m (ih k m)

/-- A source and one with more at its end. -/
theorem continues_scan (xs more : List α) (n : Nat) :
    Continues (scan xs n : Feed α ε) (scan (xs ++ more) n) := by
  induction xs generalizing n with
  | nil => exact .stop n _
  | cons x xs ih => exact .row x (n + 1) (ih (n + 1))

end Continues

end Feed
