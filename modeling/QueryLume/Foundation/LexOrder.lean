/-
  Building strict weak orders.

  Three constructions are enough for the usual comparators of records: by a key (`ascending`,
  `descending`, and `directed` for the two under a flag), and by one order with another as its
  tie-breaker (`thenBy`). Each gives a strict weak order from a linear order of the keys, and the
  lemmas below say what becomes of two elements with equal keys, with different keys, and with keys
  of another type.

  `StrictTotalOn` is the aim: on a set of elements a fallible comparator never throws, and its
  answers are those of a strict total order.  A comparator gets there by answering as a strict weak
  order does whose tie-breaker leaves no two elements tied (`StrictTotalOn.of_order`).
-/
import QueryLume.Foundation.StdAlgorithms
import Mathlib.Order.Defs.LinearOrder

namespace LexOrder

variable {α β : Type}

/-- Ascending by a key. -/
def ascending [LT β] (key : α → β) (a b : α) : Prop := key a < key b

/-- Descending by a key. -/
def descending [LT β] (key : α → β) (a b : α) : Prop := key b < key a

/-- By a key, in one direction or the other. -/
def directed [LT β] (reversed : Bool) (key : α → β) : α → α → Prop :=
  if reversed then descending key else ascending key

/-- By `first`, and where that does not decide, by `second`. -/
def thenBy (first second : α → α → Prop) (a b : α) : Prop :=
  first a b ∨ ¬ first b a ∧ second a b

/-- Elements with equal keys are tied, and ties are transitive. -/
theorem ascending_strictWeak [LinearOrder β] (key : α → β) :
    IsStrictWeakOrder α (ascending key) where
  irrefl a := lt_irrefl (key a)
  trans _ _ _ := lt_trans
  incomp_trans a b c := fun ⟨hab, hba⟩ ⟨hbc, hcb⟩ => by
    have heq : key a = key c :=
      (le_antisymm (not_lt.mp hba) (not_lt.mp hab)).trans
        (le_antisymm (not_lt.mp hcb) (not_lt.mp hbc))
    exact ⟨by rw [ascending, heq]; exact lt_irrefl _, by rw [ascending, heq]; exact lt_irrefl _⟩

theorem descending_strictWeak [LinearOrder β] (key : α → β) :
    IsStrictWeakOrder α (descending key) where
  irrefl a := lt_irrefl (key a)
  trans _ _ _ := fun hab hbc => lt_trans hbc hab
  incomp_trans a b c := fun ⟨hab, hba⟩ ⟨hbc, hcb⟩ =>
    ((ascending_strictWeak key).incomp_trans a b c ⟨hba, hab⟩ ⟨hcb, hbc⟩).symm

theorem directed_strictWeak [LinearOrder β] (reversed : Bool) (key : α → β) :
    IsStrictWeakOrder α (directed reversed key) := by
  cases reversed with
  | false => exact ascending_strictWeak key
  | true => exact descending_strictWeak key

/-- The lexicographic combination of two strict weak orders is one; the tie of the combination is
    a tie of both. -/
theorem thenBy_strictWeak {first second : α → α → Prop} (hfirst : IsStrictWeakOrder α first)
    (hsecond : IsStrictWeakOrder α second) : IsStrictWeakOrder α (thenBy first second) where
  irrefl a h := by
    rcases h with h | ⟨-, h⟩
    · exact hfirst.irrefl a h
    · exact hsecond.irrefl a h
  trans a b c hab hbc := by
    rcases hab with hab | ⟨hba, hab⟩
    · refine .inl ?_
      rcases hbc with hbc | ⟨hcb, -⟩
      · exact hfirst.trans a b c hab hbc
      · by_contra hac
        exact not_before_trans hfirst hac hcb hab
    · rcases hbc with hbc | ⟨hcb, hbc⟩
      · refine .inl ?_
        by_contra hac
        exact not_before_trans hfirst hba hac hbc
      · exact .inr ⟨not_before_trans hfirst hcb hba, hsecond.trans a b c hab hbc⟩
  incomp_trans a b c := fun ⟨hab, hba⟩ ⟨hbc, hcb⟩ => by
    -- neither order decides a pair that is left undecided
    have hsplit : ∀ {x y : α}, ¬ thenBy first second x y → ¬ thenBy first second y x →
        (¬ first x y ∧ ¬ first y x) ∧ ¬ second x y ∧ ¬ second y x := by
      intro x y hxy hyx
      have hx : ¬ first x y := fun h => hxy (.inl h)
      have hy : ¬ first y x := fun h => hyx (.inl h)
      exact ⟨⟨hx, hy⟩, fun h => hxy (.inr ⟨hy, h⟩), fun h => hyx (.inr ⟨hx, h⟩)⟩
    obtain ⟨hfab, hsab⟩ := hsplit hab hba
    obtain ⟨hfbc, hsbc⟩ := hsplit hbc hcb
    obtain ⟨hfac, hfca⟩ := hfirst.incomp_trans a b c hfab hfbc
    obtain ⟨hsac, hsca⟩ := hsecond.incomp_trans a b c hsab hsbc
    exact ⟨fun h => h.elim hfac fun h => hsac h.2, fun h => h.elim hfca fun h => hsca h.2⟩

/-- What the first order leaves undecided, the tie-breaker decides. -/
theorem thenBy_of_tie {first second : α → α → Prop} {a b : α} (hab : ¬ first a b)
    (hba : ¬ first b a) : thenBy first second a b ↔ second a b :=
  ⟨fun h => h.elim (fun h => absurd h hab) (·.2), fun h => .inr ⟨hba, h⟩⟩

theorem thenBy_congr {first second second' : α → α → Prop} {a b : α}
    (h : second a b ↔ second' a b) : thenBy first second a b ↔ thenBy first second' a b :=
  or_congr_right (and_congr_right fun _ => h)

section Directed

variable [LinearOrder β] {reversed : Bool} {key : α → β} {second : α → α → Prop} {a b : α}

/-- The direction decides which of two different keys comes first. -/
theorem directed_of_lt (reversed : Bool) (h : key a < key b) :
    (directed reversed key a b ↔ reversed = false) ∧ (directed reversed key b a ↔ reversed = true) := by
  have hnot : ¬ key b < key a := lt_asymm h
  cases reversed <;> simp [directed, ascending, descending, h, hnot]

theorem not_directed_of_eq (h : key a = key b) : ¬ directed reversed key a b := by
  cases reversed <;> simp [directed, ascending, descending, h]

/-- Equal keys leave the decision to the tie-breaker. -/
theorem thenBy_directed_of_eq (key : α → β) (h : key a = key b) :
    thenBy (directed reversed key) second a b ↔ second a b :=
  thenBy_of_tie (not_directed_of_eq h) (not_directed_of_eq h.symm)

/-- Different keys decide. -/
theorem thenBy_directed_of_lt (reversed : Bool) (second : α → α → Prop) (h : key a < key b) :
    (thenBy (directed reversed key) second a b ↔ reversed = false) ∧
      (thenBy (directed reversed key) second b a ↔ reversed = true) := by
  obtain ⟨hab, hba⟩ := directed_of_lt reversed h
  unfold thenBy
  cases reversed with
  | false => simp [hab.mpr rfl, hba]
  | true => simp [hab, hba.mpr rfl]

/-- Different keys are ordered oppositely by the two directions. -/
theorem thenBy_directed_opposed {second' : α → α → Prop} (h : key a ≠ key b) :
    (thenBy (directed false key) second a b ∧ thenBy (directed true key) second' b a) ∨
      (thenBy (directed false key) second b a ∧ thenBy (directed true key) second' a b) := by
  rcases lt_or_gt_of_ne h with hlt | hgt
  · exact .inl ⟨(thenBy_directed_of_lt _ _ hlt).1.mpr rfl, (thenBy_directed_of_lt _ _ hlt).2.mpr rfl⟩
  · exact .inr ⟨(thenBy_directed_of_lt _ _ hgt).1.mpr rfl, (thenBy_directed_of_lt _ _ hgt).2.mpr rfl⟩

/-- A total tie-breaker makes the whole order total. -/
theorem thenBy_directed_total (hsecond : second a b ∨ second b a) :
    thenBy (directed reversed key) second a b ∨ thenBy (directed reversed key) second b a := by
  rcases lt_trichotomy (key a) (key b) with h | h | h
  · obtain ⟨hab, hba⟩ := thenBy_directed_of_lt reversed second h
    cases reversed with
    | false => exact .inl (hab.mpr rfl)
    | true => exact .inr (hba.mpr rfl)
  · rw [thenBy_directed_of_eq key h, thenBy_directed_of_eq key h.symm]
    exact hsecond
  · obtain ⟨hba, hab⟩ := thenBy_directed_of_lt reversed second h
    cases reversed with
    | false => exact .inr (hba.mpr rfl)
    | true => exact .inl (hab.mpr rfl)

end Directed

/-- Two elements with the keys of two others, perhaps of another type, compare as these do. -/
theorem thenBy_directed_transfer {γ : Type} [LT γ] {reversed : Bool} {key : α → γ} {key' : β → γ}
    {second : α → α → Prop} {second' : β → β → Prop} {a b : α} {a' b' : β}
    (ha : key' a' = key a) (hb : key' b' = key b) (hsecond : second' a' b' ↔ second a b) :
    thenBy (directed reversed key') second' a' b' ↔ thenBy (directed reversed key) second a b := by
  have hdirected : ∀ {x y : α} {x' y' : β}, key' x' = key x → key' y' = key y →
      (directed reversed key' x' y' ↔ directed reversed key x y) := by
    intro x y x' y' hx hy
    cases reversed with
    | false => show key' x' < key' y' ↔ key x < key y; rw [hx, hy]
    | true => show key' y' < key' x' ↔ key y < key x; rw [hx, hy]
  exact or_congr (hdirected ha hb) (and_congr (not_congr (hdirected hb ha)) hsecond)

/-! ## Comparators -/

/-- On the elements of `S` the comparator never throws, and its answers are those of a strict
    total order. -/
structure StrictTotalOn {ε : Type} (cmp : α → α → Except ε Bool) (S : α → Prop) : Prop where
  answers : ∀ a b, S a → S b → ∃ answer, cmp a b = .ok answer
  irreflexive : ∀ a, S a → cmp a a = .ok false
  asymmetric : ∀ a b, S a → S b → cmp a b = .ok true → cmp b a = .ok false
  transitive : ∀ a b c, S a → S b → S c → cmp a b = .ok true → cmp b c = .ok true →
    cmp a c = .ok true
  /-- Exactly one of two different elements is before the other. -/
  trichotomous : ∀ a b, S a → S b → a ≠ b →
    cmp a b = .ok true ∧ cmp b a = .ok false ∨ cmp a b = .ok false ∧ cmp b a = .ok true

/-- A comparator that answers as a strict weak order does, where that order ties no two different
    elements. -/
theorem StrictTotalOn.of_order {ε : Type} {cmp : α → α → Except ε Bool} {S : α → Prop}
    {before : α → α → Prop} (hbefore : IsStrictWeakOrder α before)
    (hanswers : ∀ a b, S a → S b → ∃ answer, cmp a b = .ok answer ∧ (answer = true ↔ before a b))
    (htotal : ∀ a b, S a → S b → a ≠ b → before a b ∨ before b a) : StrictTotalOn cmp S := by
  have htrue : ∀ a b, S a → S b → (cmp a b = .ok true ↔ before a b) := by
    intro a b ha hb
    obtain ⟨answer, hcmp, hiff⟩ := hanswers a b ha hb
    rw [hcmp, Except.ok.injEq]
    exact hiff
  have hfalse : ∀ a b, S a → S b → ¬ before a b → cmp a b = .ok false := by
    intro a b ha hb hnot
    obtain ⟨answer, hcmp, hiff⟩ := hanswers a b ha hb
    rw [hcmp, Bool.eq_false_iff.mpr fun h => hnot (hiff.mp h)]
  have hasymm : ∀ {a b}, before a b → ¬ before b a := fun {a b} hab hba =>
    hbefore.irrefl a (hbefore.trans a b a hab hba)
  constructor
  · intro a b ha hb
    obtain ⟨answer, hcmp, -⟩ := hanswers a b ha hb
    exact ⟨answer, hcmp⟩
  · intro a ha
    exact hfalse a a ha ha (hbefore.irrefl a)
  · intro a b ha hb hab
    exact hfalse b a hb ha (hasymm ((htrue a b ha hb).mp hab))
  · intro a b c ha hb hc hab hbc
    rw [htrue a c ha hc]
    exact hbefore.trans a b c ((htrue a b ha hb).mp hab) ((htrue b c hb hc).mp hbc)
  · intro a b ha hb hab
    rcases htotal a b ha hb hab with h | h
    · exact .inl ⟨(htrue a b ha hb).mpr h, hfalse b a hb ha (hasymm h)⟩
    · exact .inr ⟨hfalse a b ha hb (hasymm h), (htrue b a hb ha).mpr h⟩

end LexOrder
