/-
  Comparison programs — what a generic algorithm such as a library sort can do to its input.

  A sort or a heap primitive that is handed a range and a comparator sees the elements only
  through the comparator: it asks about two positions, branches on the answer, and in the end
  says where every element goes.  `ComparisonProgram n β` is such an algorithm as a finite tree:
  a leaf holds the result, a node asks about two positions of an `n`-element range.

  One kind of algorithm is left out: the positions are DIFFERENT, so a program never compares an
  element with itself.  The C++ standard does not promise that.  The ordinary build of libstdc++
  keeps to it; its debug mode does not, because it checks that the comparator is irreflexive by
  asking.  For a comparator that throws at some elements alone the difference shows, so whatever is
  proved with these programs is about libraries that do not ask.

  The same program is run in two ways.

  * `run` — against a comparator that may refuse to answer (an exception); the first refusal
    ends the run and is what the caller gets.
  * `decideBy` — against an order that answers every question.

  The bridge is `run_ok_eq_decideBy`: a run that was never refused took the path that ANY order
  agreeing with the answers takes.  One run, two orders: this is the adversary argument that a
  sorting program cannot return without having asked about a pair it has no other way to order.
-/
import Mathlib.Order.Defs.Unbundled
import Mathlib.Tactic.Basic

/-- A program that reads an `n`-element range through a comparator only, and never compares an
    element with itself. -/
inductive ComparisonProgram (n : Nat) (β : Type) where
  | done (result : β)
  | ask (i j : Fin n) (distinct : i ≠ j) (next : Bool → ComparisonProgram n β)

namespace ComparisonProgram

variable {n : Nat} {β γ ε : Type}

/-- Run one program after another, on the same range. -/
def bind (p : ComparisonProgram n β) (f : β → ComparisonProgram n γ) : ComparisonProgram n γ :=
  match p with
  | done b => f b
  | ask i j distinct next => ask i j distinct fun answer => (next answer).bind f

/-- Run against a comparator that may throw; the first exception leaves the program. -/
def run (cmp : Fin n → Fin n → Except ε Bool) : ComparisonProgram n β → Except ε β
  | done b => .ok b
  | ask i j _ next =>
    match cmp i j with
    | .error e => .error e
    | .ok answer => run cmp (next answer)

/-- Run against an order that answers every question. -/
def decideBy (before : Fin n → Fin n → Bool) : ComparisonProgram n β → β
  | done b => b
  | ask i j _ next => decideBy before (next (before i j))

@[simp] theorem decideBy_done (before : Fin n → Fin n → Bool) (b : β) :
    (done b).decideBy before = b := rfl

@[simp] theorem decideBy_ask (before : Fin n → Fin n → Bool) {i j : Fin n} (hij : i ≠ j)
    (next : Bool → ComparisonProgram n β) :
    (ask i j hij next).decideBy before = (next (before i j)).decideBy before := rfl

@[simp] theorem decideBy_bind (before : Fin n → Fin n → Bool) (p : ComparisonProgram n β)
    (f : β → ComparisonProgram n γ) :
    (p.bind f).decideBy before = (f (p.decideBy before)).decideBy before := by
  induction p with
  | done b => rfl
  | ask i j hij next ih => exact ih (before i j)

/-! ## Results, whatever the answers -/

/-- Every result the program can end with satisfies `P`, whatever the comparator answers. -/
def Always (P : β → Prop) : ComparisonProgram n β → Prop
  | done b => P b
  | ask _ _ _ next => ∀ answer, (next answer).Always P

/-- What holds of all results of the parts holds of all results of the whole. -/
theorem Always.bind {P : β → Prop} {Q : γ → Prop} {p : ComparisonProgram n β}
    {f : β → ComparisonProgram n γ} (hp : p.Always P) (hf : ∀ b, P b → (f b).Always Q) :
    (p.bind f).Always Q := by
  induction p with
  | done b => exact hf b hp
  | ask i j hij next ih => exact fun answer => ih answer (hp answer)

theorem Always.run {P : β → Prop} {cmp : Fin n → Fin n → Except ε Bool}
    {p : ComparisonProgram n β} (hp : p.Always P) {b : β} (hrun : p.run cmp = .ok b) : P b := by
  induction p with
  | done b' => exact Except.ok.inj hrun ▸ hp
  | ask i j hij next ih =>
    rw [ComparisonProgram.run] at hrun
    cases hcmp : cmp i j with
    | error e => rw [hcmp] at hrun; cases hrun
    | ok answer => rw [hcmp] at hrun; exact ih answer (hp answer) hrun

/-! ## What a run tells about the comparator -/

/-- **The bridge.**  A run that was never refused is the run of every order that gives the same
    answers; by induction on the tree, along the path of the run. -/
theorem run_ok_eq_decideBy {cmp : Fin n → Fin n → Except ε Bool} {before : Fin n → Fin n → Bool}
    (hagree : ∀ i j, i ≠ j → ∀ answer, cmp i j = .ok answer → before i j = answer)
    {p : ComparisonProgram n β} {b : β} (hrun : p.run cmp = .ok b) : p.decideBy before = b := by
  induction p with
  | done b' => exact Except.ok.inj hrun
  | ask i j hij next ih =>
    rw [run] at hrun
    cases hcmp : cmp i j with
    | error e => rw [hcmp] at hrun; cases hrun
    | ok answer =>
      rw [hcmp] at hrun
      rw [decideBy_ask, hagree i j hij answer hcmp]
      exact ih answer hrun

/-- A comparator that answers about every two different positions lets every program finish. -/
theorem run_total {cmp : Fin n → Fin n → Except ε Bool}
    (htotal : ∀ i j, i ≠ j → ∃ answer, cmp i j = .ok answer) (p : ComparisonProgram n β) :
    ∃ b, p.run cmp = .ok b := by
  induction p with
  | done b => exact ⟨b, rfl⟩
  | ask i j hij next ih =>
    obtain ⟨answer, hanswer⟩ := htotal i j hij
    obtain ⟨b, hb⟩ := ih answer
    exact ⟨b, by rw [run, hanswer]; exact hb⟩

/-- The exception that leaves a run is one the comparator threw about two different positions. -/
theorem run_error {cmp : Fin n → Fin n → Except ε Bool} {p : ComparisonProgram n β} {e : ε}
    (hrun : p.run cmp = .error e) : ∃ i j, i ≠ j ∧ cmp i j = .error e := by
  induction p with
  | done b => cases hrun
  | ask i j hij next ih =>
    rw [run] at hrun
    cases hcmp : cmp i j with
    | error e' =>
      rw [hcmp] at hrun
      exact ⟨i, j, hij, hcmp.trans (by rw [Except.error.inj hrun])⟩
    | ok answer => rw [hcmp] at hrun; exact ih answer hrun

/-- A run is a function of the comparator's answers about different positions. -/
theorem run_congr {cmp cmp' : Fin n → Fin n → Except ε Bool}
    (hsame : ∀ i j, i ≠ j → cmp i j = cmp' i j) (p : ComparisonProgram n β) :
    p.run cmp = p.run cmp' := by
  induction p with
  | done b => rfl
  | ask i j hij next ih =>
    rw [run, run, hsame i j hij]
    cases cmp' i j with
    | error e => rfl
    | ok answer => exact ih answer

end ComparisonProgram
