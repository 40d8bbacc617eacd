/-
  Feeds — what a consumer can get out of a pull iterator by pulling until the end.

  A feed is a finite sequence of elements that stops for good, either at its end or with an
  exception.  Every event carries a mark: how much of the source had been read by then.  The marks
  make LAZINESS visible: two feeds with the same elements can differ in how far the source was
  read.

  The operators are what iterator adaptors do to feeds: `filter` and `mapRows` may throw at an
  element, `limit` stops early and hides whatever would have come after, `ofList` is a source that
  has everything ready, `scan` one that reads an element at a time.

  For each operator there is a lemma on its elements, one on its end and, in `FeedProgress.lean`,
  one on its marks.  Where a consumer does not care about the marks, `Alike` forgets them.
-/
import Mathlib.Data.List.Forall2

/-- The elements pulled one by one, and how the pulling ends.  `stop` is final: a consumer that
    pulls again gets the same end again. -/
inductive Feed (α ε : Type) where
  | stop (finish : Option ε) (mark : Nat)
  | row (row : α) (mark : Nat) (rest : Feed α ε)

namespace Feed

variable {α β ε : Type}

/-- The elements alone. -/
def rows : Feed α ε → List α
  | stop _ _ => []
  | row r _ rest => r :: rest.rows

/-- The exception at the end, if the feed ends with one. -/
def finish : Feed α ε → Option ε
  | stop f _ => f
  | row _ _ rest => rest.finish

/-- How much had been read at the end. -/
def total : Feed α ε → Nat
  | stop _ n => n
  | row _ _ rest => rest.total

/-- All the elements, or the exception that kept the consumer from getting them. -/
def collect (feed : Feed α ε) : Except ε (List α) :=
  match feed.finish with
  | some e => .error e
  | none => .ok feed.rows

/-- Keep the elements a test accepts; the test may throw. -/
def filter (test : α → Except ε Bool) : Feed α ε → Feed α ε
  | stop f n => stop f n
  | row r n rest =>
    match test r with
    | .error e => stop (some e) n
    | .ok true => row r n (rest.filter test)
    | .ok false => rest.filter test

/-- Replace every element; the function may throw. -/
def mapRows (f : α → Except ε β) : Feed α ε → Feed β ε
  | stop finish n => stop finish n
  | row r n rest =>
    match f r with
    | .error e => stop (some e) n
    | .ok b => row b n (rest.mapRows f)

/-- At most `k` elements, and not a step further.  `mark` is what has been read already. -/
def limit : Nat → Nat → Feed α ε → Feed α ε
  | 0, mark, _ => stop none mark
  | _ + 1, _, stop f n => stop f n
  | k + 1, _, row r n rest => row r n (rest.limit k n)

/-- A source that has read everything before giving out the first element. -/
def ofList (mark : Nat) : List α → Feed α ε
  | [] => stop none mark
  | r :: rest => row r mark (ofList mark rest)

/-- The source itself: every element costs one step. -/
def scan : List α → Nat → Feed α ε
  | [], n => stop none n
  | r :: rest, n => row r (n + 1) (scan rest (n + 1))

/-! ## Elements, ends and marks of the operators -/

/-- Collecting returns when the feed ends without an exception. -/
theorem collect_eq_ok {feed : Feed α ε} {xs : List α} :
    feed.collect = .ok xs ↔ feed.finish = none ∧ feed.rows = xs := by
  rw [collect]
  cases feed.finish with
  | some e =>
    constructor
    · intro h
      cases h
    · rintro ⟨h, -⟩
      cases h
  | none =>
    constructor
    · intro h
      exact ⟨rfl, Except.ok.inj h⟩
    · rintro ⟨-, rfl⟩
      rfl

@[simp] theorem rows_ofList (mark : Nat) (xs : List α) :
    (ofList mark xs : Feed α ε).rows = xs := by
  induction xs with
  | nil => rfl
  | cons x xs ih => rw [ofList, rows, ih]

@[simp] theorem finish_ofList (mark : Nat) (xs : List α) :
    (ofList mark xs : Feed α ε).finish = none := by
  induction xs with
  | nil => rfl
  | cons x xs ih => exact ih

@[simp] theorem total_ofList (mark : Nat) (xs : List α) :
    (ofList mark xs : Feed α ε).total = mark := by
  induction xs with
  | nil => rfl
  | cons x xs ih => exact ih

@[simp] theorem rows_scan (xs : List α) (n : Nat) : (scan xs n : Feed α ε).rows = xs := by
  induction xs generalizing n with
  | nil => rfl
  | cons x xs ih => rw [scan, rows, ih]

@[simp] theorem finish_scan (xs : List α) (n : Nat) : (scan xs n : Feed α ε).finish = none := by
  induction xs generalizing n with
  | nil => rfl
  | cons x xs ih => exact ih (n + 1)

/-- Taking `k` of a prepared list is preparing the first `k`. -/
theorem limit_ofList (k mark : Nat) (xs : List α) :
    (ofList mark xs : Feed α ε).limit k mark = ofList mark (xs.take k) := by
  induction k generalizing xs with
  | zero => cases xs <;> rfl
  | succ k ih =>
    cases xs with
    | nil => rfl
    | cons x xs => rw [ofList, limit, ih, List.take_succ_cons, ofList]

/-! ## Which elements come through -/

theorem rows_filter_sublist (test : α → Except ε Bool) (feed : Feed α ε) :
    (feed.filter test).rows.Sublist feed.rows := by
  induction feed with
  | stop f n => exact List.Sublist.refl _
  | row r n rest ih =>
    rw [filter]
    cases test r with
    | error e => exact List.nil_sublist _
    | ok accepted =>
      cases accepted with
      | true => exact ih.cons_cons r
      | false => exact ih.cons r

/-- What comes out of `mapRows` are the images of the first elements. -/
theorem rows_mapRows (f : α → Except ε β) (feed : Feed α ε) :
    ∃ taken, taken.Sublist feed.rows ∧
      List.Forall₂ (fun r b => f r = .ok b) taken (feed.mapRows f).rows := by
  induction feed with
  | stop finish n => exact ⟨[], List.Sublist.refl _, .nil⟩
  | row r n rest ih =>
    obtain ⟨taken, hsub, hall⟩ := ih
    rw [mapRows]
    cases hf : f r with
    | error e => exact ⟨[], List.nil_sublist _, .nil⟩
    | ok b => exact ⟨r :: taken, hsub.cons_cons r, .cons hf hall⟩

@[simp] theorem rows_limit (k mark : Nat) (feed : Feed α ε) :
    (feed.limit k mark).rows = feed.rows.take k := by
  induction feed generalizing k mark with
  | stop f n => cases k <;> rfl
  | row r n rest ih =>
    cases k with
    | zero => rfl
    | succ k => rw [limit, rows, ih, rows, List.take_succ_cons]

/-! ## Feeds of lists -/

/-- The elements of a list that a test accepts; the test may throw. -/
def keep (test : α → Except ε Bool) : List α → Except ε (List α)
  | [] => .ok []
  | x :: xs =>
    match test x with
    | .error e => .error e
    | .ok true => (keep test xs).map (x :: ·)
    | .ok false => keep test xs

/-- Testing images is testing by what the test says of the images. -/
theorem keep_map (test : β → Except ε Bool) (f : α → β) (xs : List α) :
    keep test (xs.map f) = (keep (fun x => test (f x)) xs).map (List.map f) := by
  induction xs with
  | nil => rfl
  | cons x xs ih =>
    rw [List.map_cons, keep, keep]
    cases test (f x) with
    | error e => rfl
    | ok accepted =>
      cases accepted with
      | false => exact ih
      | true =>
        simp only [ih]
        cases keep (fun x => test (f x)) xs <;> rfl

/-- Where the whole list can be tested, filtering the feed is filtering the list. -/
theorem filter_of_keep {test : α → Except ε Bool} {feed : Feed α ε} {kept : List α}
    (h : keep test feed.rows = .ok kept) :
    (feed.filter test).rows = kept ∧ (feed.filter test).finish = feed.finish := by
  induction feed generalizing kept with
  | stop f n => exact ⟨Except.ok.inj h, rfl⟩
  | row r n rest ih =>
    rw [rows, keep] at h
    rw [filter]
    cases htest : test r with
    | error e => rw [htest] at h; cases h
    | ok accepted =>
      rw [htest] at h
      cases accepted with
      | false => exact ih h
      | true =>
        cases hrest : keep test rest.rows with
        | error e => simp only [hrest] at h; cases h
        | ok others =>
          simp only [hrest] at h
          obtain ⟨hrows, hfinish⟩ := ih hrest
          rw [← Except.ok.inj h]
          exact ⟨by rw [rows, hrows], hfinish⟩

/-- A filtered feed that ends without an exception is the filtered list. -/
theorem keep_of_filter {test : α → Except ε Bool} {feed : Feed α ε}
    (h : (feed.filter test).finish = none) : keep test feed.rows = .ok (feed.filter test).rows := by
  induction feed with
  | stop f n => rfl
  | row r n rest ih =>
    rw [filter] at h ⊢
    rw [rows, keep]
    cases htest : test r with
    | error e => simp only [htest] at h; cases h
    | ok accepted =>
      simp only [htest] at h ⊢
      cases accepted with
      | false => exact ih h
      | true => rw [ih h]; rfl

/-- A list that can be filtered can be tested everywhere, and is filtered by the answers. -/
theorem keep_ok {test : α → Except ε Bool} {xs kept : List α} (h : keep test xs = .ok kept)
    {p : α → Bool} (hp : ∀ x ∈ xs, ∀ accepted, test x = .ok accepted → p x = accepted) :
    (∀ x ∈ xs, test x = .ok (p x)) ∧ kept = xs.filter p := by
  induction xs generalizing kept with
  | nil => exact ⟨fun x hx => (by cases hx), (Except.ok.inj h).symm⟩
  | cons x xs ih =>
    rw [keep] at h
    have hrest : ∀ y ∈ xs, ∀ accepted, test y = .ok accepted → p y = accepted := fun y hy =>
      hp y (List.mem_cons_of_mem _ hy)
    cases htest : test x with
    | error e => rw [htest] at h; cases h
    | ok accepted =>
      have hx := hp x List.mem_cons_self accepted htest
      rw [htest] at h
      cases accepted with
      | false =>
        obtain ⟨hall, hkept⟩ := ih h hrest
        refine ⟨List.forall_mem_cons.mpr ⟨by rw [htest, hx], hall⟩, ?_⟩
        rw [List.filter_cons_of_neg (by rw [hx]; decide)]
        exact hkept
      | true =>
        cases hkeep : keep test xs with
        | error e => simp only [hkeep] at h; cases h
        | ok others =>
          simp only [hkeep] at h
          obtain ⟨hall, hkept⟩ := ih hkeep hrest
          refine ⟨List.forall_mem_cons.mpr ⟨by rw [htest, hx], hall⟩, ?_⟩
          rw [List.filter_cons_of_pos hx, ← hkept]
          exact (Except.ok.inj h).symm

/-- Where the function throws at no element, mapping the feed is mapping the list. -/
theorem mapRows_of_forall₂ {f : α → Except ε β} {feed : Feed α ε} {mapped : List β}
    (h : List.Forall₂ (fun r b => f r = .ok b) feed.rows mapped) :
    (feed.mapRows f).rows = mapped ∧ (feed.mapRows f).finish = feed.finish := by
  induction feed generalizing mapped with
  | stop finish n =>
    cases h
    exact ⟨rfl, rfl⟩
  | row r n rest ih =>
    cases h with
    | cons hr hrest =>
      obtain ⟨hrows, hfinish⟩ := ih hrest
      rw [mapRows, hr]
      exact ⟨by rw [rows, hrows], hfinish⟩

theorem finish_limit_none {feed : Feed α ε} (h : feed.finish = none) (k mark : Nat) :
    (feed.limit k mark).finish = none := by
  induction feed generalizing k mark with
  | stop f n =>
    cases k with
    | zero => rfl
    | succ k => exact h
  | row r n rest ih =>
    cases k with
    | zero => rfl
    | succ k => exact ih h k n

/-! ## Where an exception at the end comes from -/

/-- The exception of a filter is that of its child or of its test. -/
theorem finish_filter {test : α → Except ε Bool} {feed : Feed α ε} {e : ε}
    (h : (feed.filter test).finish = some e) :
    feed.finish = some e ∨ ∃ r, test r = .error e := by
  induction feed with
  | stop f n => exact .inl h
  | row r n rest ih =>
    rw [filter] at h
    cases htest : test r with
    | error e' =>
      rw [htest] at h
      exact .inr ⟨r, by rw [htest, Option.some.inj h]⟩
    | ok accepted =>
      rw [htest] at h
      cases accepted with
      | true => exact ih h
      | false => exact ih h

theorem finish_mapRows {f : α → Except ε β} {feed : Feed α ε} {e : ε}
    (h : (feed.mapRows f).finish = some e) : feed.finish = some e ∨ ∃ r, f r = .error e := by
  induction feed with
  | stop finish n => exact .inl h
  | row r n rest ih =>
    rw [mapRows] at h
    cases hf : f r with
    | error e' =>
      rw [hf] at h
      exact .inr ⟨r, by rw [hf, Option.some.inj h]⟩
    | ok b => rw [hf] at h; exact ih h

/-- The exception of a limit is that of its child, which it may also hide. -/
theorem finish_limit {k mark : Nat} {feed : Feed α ε} {e : ε}
    (h : (feed.limit k mark).finish = some e) : feed.finish = some e := by
  induction feed generalizing k mark with
  | stop f n =>
    cases k with
    | zero => cases h
    | succ k => exact h
  | row r n rest ih =>
    cases k with
    | zero => cases h
    | succ k => exact ih h

/-! ## Up to the marks -/

/-- The same elements and the same end; how much has been read by then may differ. -/
inductive Alike : Feed α ε → Feed α ε → Prop where
  | stop (finish : Option ε) (mark mark' : Nat) : Alike (stop finish mark) (stop finish mark')
  | row (r : α) (mark mark' : Nat) {rest rest' : Feed α ε} (alike : Alike rest rest') :
      Alike (row r mark rest) (row r mark' rest')

section Alike

variable {feed feed' : Feed α ε}

/-- Elements and end determine a feed up to the marks. -/
theorem alike_of_eq (hrows : feed.rows = feed'.rows) (hfinish : feed.finish = feed'.finish) :
    Alike feed feed' := by
  induction feed generalizing feed' with
  | stop finish mark =>
    cases feed' with
    | stop finish' mark' =>
      obtain rfl : finish = finish' := hfinish
      exact .stop finish mark mark'
    | row r mark' rest => cases hrows
  | row r mark rest ih =>
    cases feed' with
    | stop finish' mark' => cases hrows
    | row r' mark' rest' =>
      obtain ⟨rfl, hrest⟩ := List.cons.inj hrows
      exact .row r mark mark' (ih hrest hfinish)

theorem Alike.rows (h : Alike feed feed') : feed.rows = feed'.rows := by
  induction h with
  | stop finish mark mark' => rfl
  | row r mark mark' _ ih => exact congrArg (r :: ·) ih

theorem Alike.finish (h : Alike feed feed') : feed.finish = feed'.finish := by
  induction h with
  | stop finish mark mark' => rfl
  | row r mark mark' _ ih => exact ih

theorem Alike.collect (h : Alike feed feed') : feed.collect = feed'.collect := by
  rw [Feed.collect, Feed.collect, h.rows, h.finish]

theorem Alike.filter (h : Alike feed feed') (test : α → Except ε Bool) :
    Alike (feed.filter test) (feed'.filter test) := by
  induction h with
  | stop finish mark mark' => exact .stop finish mark mark'
  | row r mark mark' _ ih =>
    rw [Feed.filter, Feed.filter]
    cases test r with
    | error e => exact .stop (some e) mark mark'
    | ok accepted =>
      cases accepted with
      | true => exact .row r mark mark' ih
      | false => exact ih

theorem Alike.mapRows (h : Alike feed feed') (f : α → Except ε β) :
    Alike (feed.mapRows f) (feed'.mapRows f) := by
  induction h with
  | stop finish mark mark' => exact .stop finish mark mark'
  | row r mark mark' _ ih =>
    rw [Feed.mapRows, Feed.mapRows]
    cases f r with
    | error e => exact .stop (some e) mark mark'
    | ok b => exact .row b mark mark' ih

theorem Alike.limit (h : Alike feed feed') (k mark mark' : Nat) :
    Alike (feed.limit k mark) (feed'.limit k mark') := by
  induction h generalizing k mark mark' with
  | stop finish n n' =>
    cases k with
    | zero => exact .stop none mark mark'
    | succ k => exact .stop finish n n'
  | row r n n' _ ih =>
    cases k with
    | zero => exact .stop none mark mark'
    | succ k => exact .row r n n' (ih k n n')

end Alike

end Feed
