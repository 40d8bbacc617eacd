/-
  Relations between outcomes, and between lists element by element; folds that may throw, and what
  they hold on their way.

  `SameOutcome S` is the relation two runs are usually compared by: both throw the same exception,
  or both return, and the results are related by `S`.  It goes through everything outcomes are put
  together with (`bind`, `map`, `foldlM`), so a simulation between two interpreters is proved step
  by step.

  `foldHeads` is the trace of a fold: its values before each element and at its end.  An invariant
  of a loop is a statement about this list.

  The rest supplements Mathlib's `List.Forall₂`, under its names.
-/
import Mathlib.Data.List.Forall2

/-- Two outcomes are alike: the same exception, or related results. -/
inductive SameOutcome {β γ ε : Type} (S : β → γ → Prop) : Except ε β → Except ε γ → Prop where
  | error (e : ε) : SameOutcome S (.error e) (.error e)
  | ok {b : β} {c : γ} (related : S b c) : SameOutcome S (.ok b) (.ok c)

theorem SameOutcome.bind {β γ β' γ' ε : Type} {S : β → γ → Prop} {S' : β' → γ' → Prop}
    {x : Except ε β} {y : Except ε γ} {f : β → Except ε β'} {g : γ → Except ε γ'}
    (h : SameOutcome S x y) (hfg : ∀ b c, S b c → SameOutcome S' (f b) (g c)) :
    SameOutcome S' (x.bind f) (y.bind g) := by
  cases h with
  | error e => exact .error e
  | ok related => exact hfg _ _ related

/-- What is made of related results in the same way. -/
theorem SameOutcome.bind_eq {β γ δ ε : Type} {S : β → γ → Prop} {x : Except ε β} {y : Except ε γ}
    {f : β → Except ε δ} {g : γ → Except ε δ} (h : SameOutcome S x y)
    (hfg : ∀ b c, S b c → f b = g c) : x.bind f = y.bind g := by
  cases h with
  | error e => rfl
  | ok related => exact hfg _ _ related

theorem SameOutcome.imp {β γ ε : Type} {S S' : β → γ → Prop} {x : Except ε β} {y : Except ε γ}
    (h : SameOutcome S x y) (himp : ∀ b c, S b c → S' b c) : SameOutcome S' x y := by
  cases h with
  | error e => exact .error e
  | ok related => exact .ok (himp _ _ related)

theorem SameOutcome.map {β γ β' γ' ε : Type} {S : β → γ → Prop} {S' : β' → γ' → Prop}
    {x : Except ε β} {y : Except ε γ} {f : β → β'} {g : γ → γ'}
    (h : SameOutcome S x y) (hfg : ∀ b c, S b c → S' (f b) (g c)) :
    SameOutcome S' (x.map f) (y.map g) := by
  cases h with
  | error e => exact .error e
  | ok related => exact .ok (hfg _ _ related)

theorem SameOutcome.map_eq {β γ δ ε : Type} {S : β → γ → Prop} {x : Except ε β} {y : Except ε γ}
    {f : β → δ} {g : γ → δ} (h : SameOutcome S x y) (hfg : ∀ b c, S b c → f b = g c) :
    x.map f = y.map g := by
  cases h with
  | error e => rfl
  | ok related => exact congrArg Except.ok (hfg _ _ related)

theorem SameOutcome.ok_left {β γ ε : Type} {S : β → γ → Prop} {b : β} {y : Except ε γ}
    (h : SameOutcome S (.ok b) y) : ∃ c, y = .ok c ∧ S b c := by
  cases h with
  | ok related => exact ⟨_, rfl, related⟩

/-- A fold that throws, over related lists; by induction on the lists. -/
theorem SameOutcome.foldlM {α α' β γ ε : Type} {R : α → α' → Prop} {S : β → γ → Prop}
    {f : β → α → Except ε β} {g : γ → α' → Except ε γ}
    (hfg : ∀ b c a a', S b c → R a a' → SameOutcome S (f b a) (g c a')) {xs : List α}
    {ys : List α'} (hxs : List.Forall₂ R xs ys) : ∀ {b : β} {c : γ}, S b c →
    SameOutcome S (xs.foldlM f b) (ys.foldlM g c) := by
  induction hxs with
  | nil => exact fun hbc => .ok hbc
  | cons hxy _ ih =>
    intro b c hbc
    rw [List.foldlM_cons, List.foldlM_cons]
    exact (hfg b c _ _ hbc hxy).bind fun b' c' hbc' => ih hbc'

/-! ## What a fold that throws holds on its way -/

section Heads

variable {α β ε : Type} {f : β → α → Except ε β}

/-- The values of the fold before each element it takes and at its end, as far as it gets. -/
def foldHeads (f : β → α → Except ε β) : β → List α → List β
  | b, [] => [b]
  | b, x :: xs =>
    b :: match f b x with
      | .error _ => []
      | .ok b' => foldHeads f b' xs

/-- The `n`-th of them is what the first `n` elements fold to. -/
theorem getElem?_foldHeads {xs : List α} {n : Nat} {b c : β} :
    (foldHeads f b xs)[n]? = some c ↔ n ≤ xs.length ∧ (xs.take n).foldlM f b = .ok c := by
  induction xs generalizing b n with
  | nil =>
    cases n with
    | zero => simp [foldHeads, pure, Except.pure]
    | succ n => simp [foldHeads]
  | cons x xs ih =>
    cases n with
    | zero => simp [foldHeads, pure, Except.pure]
    | succ n =>
      rw [foldHeads, List.getElem?_cons_succ, List.take_succ_cons, List.foldlM_cons,
        List.length_cons, Nat.succ_le_succ_iff]
      cases hf : f b x with
      | error e =>
        constructor
        · intro h; cases h
        · rintro ⟨-, h⟩; cases h
      | ok b' => exact ih

/-- A fold that returned has taken every element. -/
theorem length_foldHeads {xs : List α} {b c : β} (h : xs.foldlM f b = .ok c) :
    (foldHeads f b xs).length = xs.length + 1 := by
  have hlast : (foldHeads f b xs)[xs.length]? = some c :=
    getElem?_foldHeads.mpr ⟨Nat.le_refl _, by rwa [List.take_length]⟩
  have hend : (foldHeads f b xs)[xs.length + 1]? = none := by
    cases hnext : (foldHeads f b xs)[xs.length + 1]? with
    | none => rfl
    | some d => exact absurd (getElem?_foldHeads.mp hnext).1 (Nat.not_succ_le_self _)
  have hlt := (List.getElem?_eq_some_iff.mp hlast).1
  have hge := List.getElem?_eq_none_iff.mp hend
  omega

end Heads

namespace List

variable {α β : Type} {R : α → β → Prop} {xs : List α} {ys : List β}

theorem Forall₂.exists_of_mem_left (h : Forall₂ R xs ys) {x : α} (hx : x ∈ xs) : ∃ y ∈ ys, R x y := by
  induction h with
  | nil => cases hx
  | @cons a b xs ys hab _ ih =>
    rcases mem_cons.mp hx with rfl | hx
    · exact ⟨b, mem_cons_self, hab⟩
    · obtain ⟨y, hy, hxy⟩ := ih hx
      exact ⟨y, mem_cons_of_mem _ hy, hxy⟩

theorem Forall₂.exists_of_mem_right (h : Forall₂ R xs ys) {y : β} (hy : y ∈ ys) :
    ∃ x ∈ xs, R x y :=
  Forall₂.exists_of_mem_left h.flip hy

/-- A partner for each. -/
theorem Forall₂.exists_of_forall : ∀ {xs : List α}, (∀ x ∈ xs, ∃ y, R x y) → ∃ ys, Forall₂ R xs ys
  | [], _ => ⟨[], .nil⟩
  | _ :: _, h => by
    obtain ⟨⟨y, hxy⟩, hrest⟩ := forall_mem_cons.mp h
    obtain ⟨ys, hys⟩ := Forall₂.exists_of_forall hrest
    exact ⟨y :: ys, .cons hxy hys⟩

/-- One relation after another. -/
theorem Forall₂.compose {γ : Type} {S : β → γ → Prop} {T : α → γ → Prop} {zs : List γ}
    (h : Forall₂ R xs ys) (h' : Forall₂ S ys zs)
    (hcompose : ∀ x ∈ xs, ∀ y z, R x y → S y z → T x z) : Forall₂ T xs zs := by
  induction h generalizing zs with
  | nil =>
    cases h'
    exact .nil
  | cons hxy _ ih =>
    obtain ⟨hfirst, hrest⟩ := forall_mem_cons.mp hcompose
    cases h' with
    | cons hyz htail => exact .cons (hfirst _ _ hxy hyz) (ih htail hrest)

/-- What stands at a place is related to what stands at the same place. -/
theorem Forall₂.getElem?_left (h : Forall₂ R xs ys) {i : Nat} {x : α} (hx : xs[i]? = some x) :
    ∃ y, ys[i]? = some y ∧ R x y := by
  obtain ⟨hlength, hrelated⟩ := forall₂_iff_get.mp h
  obtain ⟨hlt, rfl⟩ := getElem?_eq_some_iff.mp hx
  have hlt' : i < ys.length := hlength ▸ hlt
  exact ⟨ys[i], getElem?_eq_getElem hlt', hrelated i hlt hlt'⟩

theorem Forall₂.dropLast (h : Forall₂ R xs ys) : Forall₂ R xs.dropLast ys.dropLast := by
  rw [dropLast_eq_take, dropLast_eq_take, h.length_eq]
  exact forall₂_take _ h

theorem Forall₂.append {xs' : List α} {ys' : List β} (h : Forall₂ R xs ys) (h' : Forall₂ R xs' ys') :
    Forall₂ R (xs ++ xs') (ys ++ ys') := by
  induction h with
  | nil => exact h'
  | cons hxy _ ih => exact .cons hxy ih

theorem Forall₂.of_append_left {xs' : List α} (h : Forall₂ R (xs ++ xs') ys) :
    ∃ ys₁ ys₂, ys = ys₁ ++ ys₂ ∧ Forall₂ R xs ys₁ ∧ Forall₂ R xs' ys₂ := by
  induction xs generalizing ys with
  | nil => exact ⟨[], ys, rfl, .nil, h⟩
  | cons x xs ih =>
    cases h with
    | @cons _ y _ ys hxy hrest =>
      obtain ⟨ys₁, ys₂, rfl, h₁, h₂⟩ := ih hrest
      exact ⟨y :: ys₁, ys₂, rfl, .cons hxy h₁, h₂⟩

end List
