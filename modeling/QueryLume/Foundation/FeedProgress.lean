/-
  Reading a prefix of the source.

  1. **Prefixes** — `upTo n` is what a feed has given out once `n` elements of the source have been
     read. While the feed has not thrown by then (`Reads n`), it is exactly what the operators make
     of the first `n` elements, on plain lists (`keep_upTo`, `mapRows_upTo`, `limit_upTo`).

  2. **Pace** — `Paced` excludes feeds that give out or throw something for nothing: every event
     costs at least one element of the source.  A source has it and the operators keep it.

  3. **Limits** are where reading stops early: `limit_reached` and `limit_not_reached` say how far
     it goes.

  4. **Blocking** — `AtMark` is the opposite of a paced feed: everything was read before the first
     element came out, as over a sort.
-/
import QueryLume.Foundation.Feed

namespace Feed

variable {α β ε : Type}

/-- The elements given out when `n` elements of the source have been read. -/
def upTo (n : Nat) : Feed α ε → List α
  | stop _ _ => []
  | row r m rest => if m ≤ n then r :: rest.upTo n else []

/-- The first `n` elements of the source can be read without an exception. -/
def Reads (n : Nat) (feed : Feed α ε) : Prop :=
  n < feed.total ∨ (n = feed.total ∧ feed.finish = none)

/-- Every element costs the source at least one, and so does an exception. -/
def Paced : Nat → Feed α ε → Prop
  | last, stop none m => last ≤ m
  | last, stop (some _) m => last < m
  | last, row _ m rest => last < m ∧ rest.Paced m

/-- Everything was read before the first element came out. -/
def AtMark (mark : Nat) : Feed α ε → Prop
  | stop _ m => m = mark
  | row _ m rest => m = mark ∧ rest.AtMark mark

/-- What can be read to some point can be read to an earlier one. -/
theorem Reads.mono {feed : Feed α ε} {m n : Nat} (h : feed.Reads n) (hle : m ≤ n) :
    feed.Reads m := by
  rcases h with hlt | ⟨heq, hfinish⟩
  · exact .inl (Nat.lt_of_le_of_lt hle hlt)
  · rcases Nat.lt_or_eq_of_le hle with hlt | rfl
    · exact .inl (heq ▸ hlt)
    · exact .inr ⟨heq, hfinish⟩

/-- No feed reads more than it has read at its end. -/
theorem Reads.le {feed : Feed α ε} {n : Nat} (h : feed.Reads n) : n ≤ feed.total := by
  rcases h with hlt | ⟨heq, -⟩
  · exact Nat.le_of_lt hlt
  · exact Nat.le_of_eq heq

/-! ## Paced feeds -/

section Paced

variable {feed : Feed α ε} {last n : Nat}

/-- The first step may as well count from an earlier mark. -/
theorem Paced.weaken {earlier : Nat} (h : feed.Paced last) (hle : earlier ≤ last) :
    feed.Paced earlier := by
  cases feed with
  | stop finish m =>
    cases finish with
    | none => exact Nat.le_trans hle h
    | some e => exact Nat.lt_of_le_of_lt hle h
  | row r m rest => exact ⟨Nat.lt_of_le_of_lt hle h.1, h.2⟩

/-- Nothing has gone wrong before the first step. -/
theorem Paced.reads (h : feed.Paced last) : feed.Reads last := by
  induction feed generalizing last with
  | stop finish m =>
    cases finish with
    | none =>
      rcases Nat.lt_or_eq_of_le h with hlt | heq
      · exact .inl hlt
      · exact .inr ⟨heq, rfl⟩
    | some e => exact .inl h
  | row r m rest ih =>
    have hrest : rest.Reads m := ih h.2
    exact .inl (Nat.lt_of_lt_of_le h.1 hrest.le)

/-- Before the first step, nothing has come out. -/
theorem Paced.upTo_eq_nil (h : feed.Paced last) (hle : n ≤ last) : feed.upTo n = [] := by
  cases feed with
  | stop finish m => rfl
  | row r m rest =>
    have hlt : n < m := Nat.lt_of_le_of_lt hle h.1
    rw [upTo, if_neg (Nat.not_le_of_lt hlt)]

theorem Paced.of_row {r : α} {m : Nat} {rest : Feed α ε} (h : (row r m rest).Paced last) :
    rest.Paced last := h.2.weaken (Nat.le_of_lt h.1)

end Paced

/-! ## The source -/

/-- A source is paced: every element costs one step, and the end nothing. -/
theorem paced_scan (xs : List α) (n : Nat) : (scan xs n : Feed α ε).Paced n := by
  induction xs generalizing n with
  | nil => exact Nat.le_refl n
  | cons x xs ih => exact ⟨Nat.lt_succ_self n, ih (n + 1)⟩

theorem total_scan (xs : List α) (n : Nat) : (scan xs n : Feed α ε).total = n + xs.length := by
  induction xs generalizing n with
  | nil => rfl
  | cons x xs ih =>
    rw [scan, total, ih, List.length_cons]
    omega

/-- After `k` steps it has given out the first `k` elements. -/
theorem upTo_scan (xs : List α) (n k : Nat) :
    (scan xs n : Feed α ε).upTo (n + k) = xs.take k := by
  induction xs generalizing n k with
  | nil => rw [List.take_nil]; rfl
  | cons x xs ih =>
    rw [scan, upTo]
    cases k with
    | zero => rw [if_neg (by omega), List.take_zero]
    | succ k =>
      have h := ih (n + 1) k
      rw [Nat.add_right_comm] at h
      rw [if_pos (by omega), List.take_succ_cons, ← Nat.add_assoc, h]

/-! ## Filtering -/

section Filter

variable {test : α → Except ε Bool} {feed : Feed α ε} {last n : Nat}

theorem Paced.filter (h : feed.Paced last) : (feed.filter test).Paced last := by
  induction feed generalizing last with
  | stop finish m => exact h
  | row r m rest ih =>
    rw [Feed.filter]
    cases test r with
    | error e => exact h.1
    | ok accepted =>
      cases accepted with
      | true => exact ⟨h.1, ih h.2⟩
      | false => exact ih h.of_row

/-- A filter reads on until its child ends, or until it throws. -/
theorem total_filter (test : α → Except ε Bool) (h : feed.Paced last) :
    (feed.filter test).total ≤ feed.total ∧ ((feed.filter test).finish = none →
      feed.finish = none ∧ (feed.filter test).total = feed.total) := by
  induction feed generalizing last with
  | stop finish m => exact ⟨Nat.le_refl _, fun hfinish => ⟨hfinish, rfl⟩⟩
  | row r m rest ih =>
    rw [Feed.filter]
    cases test r with
    | error e => exact ⟨h.2.reads.le, fun hfinish => by cases hfinish⟩
    | ok accepted =>
      cases accepted with
      | true => exact ih h.2
      | false => exact ih h.2

/-- What a filter could read without an exception, its child could. -/
theorem Reads.of_filter (h : feed.Paced last) (hreads : (feed.filter test).Reads n) :
    feed.Reads n := by
  obtain ⟨hle, hend⟩ := total_filter test h
  rcases hreads with hlt | ⟨heq, hfinish⟩
  · exact .inl (Nat.lt_of_lt_of_le hlt hle)
  · obtain ⟨hnone, htotal⟩ := hend hfinish
    exact .inr ⟨heq.trans htotal, hnone⟩

/-- On a prefix, filtering the feed is filtering the list. -/
theorem keep_upTo (h : feed.Paced last) (hreads : (feed.filter test).Reads n) :
    keep test (feed.upTo n) = .ok ((feed.filter test).upTo n) := by
  induction feed generalizing last with
  | stop finish m => rfl
  | row r m rest ih =>
    by_cases hm : m ≤ n
    · rw [upTo, if_pos hm, keep]
      rw [Feed.filter] at hreads ⊢
      cases htest : test r with
      | error e =>
        -- the exception would have been thrown by now
        rw [htest] at hreads
        rcases hreads with hlt | ⟨-, hfinish⟩
        · exact absurd hlt (Nat.not_lt_of_le hm)
        · cases hfinish
      | ok accepted =>
        rw [htest] at hreads
        cases accepted with
        | true =>
          have hrest := ih h.2 hreads
          simp only [hrest, upTo, if_pos hm]
          rfl
        | false => exact ih h.2 hreads
    · have hlt : n < m := Nat.lt_of_not_le hm
      have hnone : (row r m rest : Feed α ε).upTo n = [] := by rw [upTo, if_neg hm]
      have hnone' : ((row r m rest : Feed α ε).filter test).upTo n = [] := by
        rw [Feed.filter]
        cases test r with
        | error e => rfl
        | ok accepted =>
          cases accepted with
          | true => simp only [upTo, if_neg hm]
          | false => exact h.2.filter.upTo_eq_nil (Nat.le_of_lt hlt)
      rw [hnone, hnone']
      rfl

end Filter

/-! ## Mapping -/

section Map

variable {f : α → Except ε β} {feed : Feed α ε} {last n : Nat}

/-- A function changes the elements, not the steps. -/
theorem Paced.mapRows (h : feed.Paced last) : (feed.mapRows f).Paced last := by
  induction feed generalizing last with
  | stop finish m => cases finish <;> exact h
  | row r m rest ih =>
    rw [Feed.mapRows]
    cases f r with
    | error e => exact h.1
    | ok b => exact ⟨h.1, ih h.2⟩

/-- It reads on until its child ends, or until it throws. -/
theorem total_mapRows (h : feed.Paced last) :
    (feed.mapRows f).total ≤ feed.total ∧ ((feed.mapRows f).finish = none →
      feed.finish = none ∧ (feed.mapRows f).total = feed.total) := by
  induction feed generalizing last with
  | stop finish m => exact ⟨Nat.le_refl _, fun hfinish => ⟨hfinish, rfl⟩⟩
  | row r m rest ih =>
    rw [Feed.mapRows]
    cases f r with
    | error e => exact ⟨h.2.reads.le, fun hfinish => by cases hfinish⟩
    | ok b => exact ih h.2

/-- What it could read without an exception, its child could. -/
theorem Reads.of_mapRows (h : feed.Paced last) (hreads : (feed.mapRows f).Reads n) :
    feed.Reads n := by
  obtain ⟨hle, hend⟩ := total_mapRows (f := f) h
  rcases hreads with hlt | ⟨heq, hfinish⟩
  · exact .inl (Nat.lt_of_lt_of_le hlt hle)
  · obtain ⟨hnone, htotal⟩ := hend hfinish
    exact .inr ⟨heq.trans htotal, hnone⟩

/-- On a prefix, mapping the feed is mapping the list. -/
theorem mapRows_upTo (hreads : (feed.mapRows f).Reads n) :
    List.Forall₂ (fun r b => f r = .ok b) (feed.upTo n) ((feed.mapRows f).upTo n) := by
  induction feed with
  | stop finish m => exact .nil
  | row r m rest ih =>
    rw [Feed.mapRows] at hreads ⊢
    cases hf : f r with
    | error e =>
      rw [hf] at hreads
      rcases hreads with hlt | ⟨-, hfinish⟩
      · have hm : ¬ m ≤ n := Nat.not_le_of_lt hlt
        simp only [upTo, if_neg hm]
        exact .nil
      · cases hfinish
    | ok b =>
      rw [hf] at hreads
      by_cases hm : m ≤ n
      · simp only [upTo, if_pos hm]
        exact .cons hf (ih hreads)
      · simp only [upTo, if_neg hm]
        exact .nil

end Map

/-! ## Limits -/

section Limit

variable {feed : Feed α ε} {k last n : Nat}

theorem Paced.limit (h : feed.Paced last) : (feed.limit k last).Paced last := by
  induction feed generalizing k last with
  | stop finish m =>
    cases k with
    | zero => exact Nat.le_refl last
    | succ k => exact h
  | row r m rest ih =>
    cases k with
    | zero => exact Nat.le_refl last
    | succ k => exact ⟨h.1, ih h.2⟩

/-- On a prefix, the limit of the feed is the limit of the list. -/
theorem limit_upTo (k last n : Nat) (feed : Feed α ε) :
    (feed.limit k last).upTo n = (feed.upTo n).take k := by
  induction feed generalizing k last with
  | stop finish m => cases k <;> simp [Feed.limit, upTo]
  | row r m rest ih =>
    cases k with
    | zero => rw [List.take_zero]; rfl
    | succ k =>
      rw [Feed.limit, upTo, upTo]
      by_cases hm : m ≤ n
      · rw [if_pos hm, if_pos hm, List.take_succ_cons, ih]
      · rw [if_neg hm, if_neg hm, List.take_nil]

/-- A limit that fills up stops where the last of its elements came out, without an exception; by
    then nothing has gone wrong below it, and that many elements have come out there. -/
theorem limit_reached (h : feed.Paced last) (hk : k ≤ feed.rows.length) :
    (feed.limit k last).finish = none ∧ feed.Reads (feed.limit k last).total ∧
      k ≤ (feed.upTo (feed.limit k last).total).length := by
  induction feed generalizing k last with
  | stop finish m =>
    obtain rfl : k = 0 := Nat.le_zero.mp hk
    exact ⟨rfl, h.reads, Nat.zero_le _⟩
  | row r m rest ih =>
    cases k with
    | zero => exact ⟨rfl, h.reads, Nat.zero_le _⟩
    | succ k =>
      obtain ⟨hfinish, hreads, hlen⟩ := ih h.2 (Nat.succ_le_succ_iff.mp hk)
      refine ⟨hfinish, hreads, ?_⟩
      have hm : m ≤ (rest.limit k m).total := h.2.limit.reads.le
      rw [Feed.limit, total, upTo, if_pos hm, List.length_cons]
      exact Nat.succ_le_succ hlen

/-- A limit that does not fill up is not noticed. -/
theorem limit_not_reached (hk : feed.rows.length < k) : feed.limit k last = feed := by
  induction feed generalizing k last with
  | stop finish m =>
    cases k with
    | zero => cases hk
    | succ k => rfl
  | row r m rest ih =>
    cases k with
    | zero => cases hk
    | succ k => rw [Feed.limit, ih (Nat.succ_lt_succ_iff.mp hk)]

/-- A limit stops no later than its last element comes out. -/
theorem total_limit_le (hlast : last ≤ n) (hk : k ≤ (feed.upTo n).length) :
    (feed.limit k last).total ≤ n := by
  induction feed generalizing k last with
  | stop finish m =>
    obtain rfl : k = 0 := Nat.le_zero.mp hk
    exact hlast
  | row r m rest ih =>
    cases k with
    | zero => exact hlast
    | succ k =>
      rw [upTo] at hk
      by_cases hm : m ≤ n
      · rw [if_pos hm] at hk
        exact ih hm (Nat.succ_le_succ_iff.mp hk)
      · rw [if_neg hm] at hk
        cases hk

theorem Reads.of_limit (h : feed.Paced last) (hreads : (feed.limit k last).Reads n) :
    feed.Reads n := by
  rcases Nat.lt_or_ge feed.rows.length k with hlt | hge
  · rwa [limit_not_reached hlt] at hreads
  · exact (limit_reached h hge).2.1.mono hreads.le

theorem total_limit (h : feed.Paced last) : (feed.limit k last).total ≤ feed.total := by
  rcases Nat.lt_or_ge feed.rows.length k with hlt | hge
  · exact Nat.le_of_eq (congrArg Feed.total (limit_not_reached hlt))
  · exact (limit_reached h hge).2.1.le

end Limit

/-! ## Feeds that have read everything -/

section AtMark

variable {feed : Feed α ε} {mark : Nat}

/-- A feed that has read everything has read as much at its end. -/
theorem AtMark.total (h : feed.AtMark mark) : feed.total = mark := by
  induction feed with
  | stop finish m => exact h
  | row r m rest ih => exact ih h.2

theorem atMark_ofList (mark : Nat) (xs : List α) : (ofList mark xs : Feed α ε).AtMark mark := by
  induction xs with
  | nil => rfl
  | cons x xs ih => exact ⟨rfl, ih⟩

theorem AtMark.filter (h : feed.AtMark mark) (test : α → Except ε Bool) :
    (feed.filter test).AtMark mark := by
  induction feed with
  | stop finish m => exact h
  | row r m rest ih =>
    rw [Feed.filter]
    cases test r with
    | error e => exact h.1
    | ok accepted =>
      cases accepted with
      | true => exact ⟨h.1, ih h.2⟩
      | false => exact ih h.2

theorem AtMark.mapRows (h : feed.AtMark mark) (f : α → Except ε β) :
    (feed.mapRows f).AtMark mark := by
  induction feed with
  | stop finish m => exact h
  | row r m rest ih =>
    rw [Feed.mapRows]
    cases f r with
    | error e => exact h.1
    | ok b => exact ⟨h.1, ih h.2⟩

theorem AtMark.limit (h : feed.AtMark mark) (k : Nat) : (feed.limit k mark).AtMark mark := by
  induction feed generalizing k with
  | stop finish m =>
    cases k with
    | zero => rfl
    | succ k => exact h
  | row r m rest ih =>
    cases k with
    | zero => rfl
    | succ k =>
      obtain ⟨rfl, hrest⟩ := h
      exact ⟨rfl, ih hrest k⟩

end AtMark

end Feed
