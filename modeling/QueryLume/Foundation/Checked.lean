/-
  Computations that check as they go and throw at the first check that fails.

  `Checked complaints P x` says all of it: `complaints` lists, in the order of the checks, every
  complaint there is about the input; `x` throws the first of them, and when there is none it
  returns a result with `P`.  Acceptance in both directions and the choice of the error are then
  one statement (`returns_iff`, `throws_iff`), and it is proved by following the code once.

  The rules have the shape of the code: one computation after another (`bind`), a single demand
  (`demand`), a loop over a list (`cons`).  Before that, what a bind or a map that returned tells
  of its first step.
-/
import Mathlib.Data.List.Forall2

/-! ## Where an outcome comes from -/

namespace Except

variable {ε α β : Type} {x : Except ε α}

/-- A computation in two steps that returned has returned from the first. -/
theorem bind_eq_ok {f : α → Except ε β} {b : β} (h : x.bind f = .ok b) :
    ∃ a, x = .ok a ∧ f a = .ok b := by
  cases x with
  | error e => cases h
  | ok a => exact ⟨a, rfl, h⟩

theorem map_eq_ok {f : α → β} {b : β} (h : x.map f = .ok b) : ∃ a, x = .ok a ∧ f a = b := by
  cases x with
  | error e => cases h
  | ok a => exact ⟨a, rfl, Except.ok.inj h⟩

/-- What a computation returns, so does one that returns what its first step does. -/
theorem bind_eq_ok_mono {x' : Except ε α} {f : α → Except ε β} {b : β}
    (hx : ∀ a, x = .ok a → x' = .ok a) (h : x.bind f = .ok b) : x'.bind f = .ok b := by
  obtain ⟨a, ha, hb⟩ := bind_eq_ok h
  rw [hx a ha]
  exact hb

theorem map_eq_ok_mono {x' : Except ε α} {f : α → β} {b : β} (hx : ∀ a, x = .ok a → x' = .ok a)
    (h : x.map f = .ok b) : x'.map f = .ok b := by
  obtain ⟨a, ha, hb⟩ := map_eq_ok h
  rw [hx a ha, ← hb]
  rfl

/-- A function does not throw: the exception is that of the computation. -/
theorem map_eq_error {f : α → β} {e : ε} (h : x.map f = .error e) : x = .error e := by
  cases x with
  | error e' => rw [Except.error.inj h]
  | ok a => cases h

theorem map_eq_error_iff {f : α → β} {e : ε} : x.map f = .error e ↔ x = .error e := by
  constructor
  · exact map_eq_error
  · intro h
    rw [h]
    rfl

theorem map_eq_ok_iff {f : α → β} (hf : Function.Injective f) {a : α} :
    x.map f = .ok (f a) ↔ x = .ok a := by
  constructor
  · intro h
    obtain ⟨a', rfl, heq⟩ := map_eq_ok h
    rw [hf heq]
  · rintro rfl
    rfl

/-- A loop that collects, one result for every element: `loop` returns exactly the lists of what its
    body `f` returns. -/
theorem forall₂_of_collects (loop : List α → Except ε (List β)) {f : α → Except ε β}
    (hnil : loop [] = .ok [])
    (hcons : ∀ a as, loop (a :: as) = (f a).bind fun b => (loop as).bind fun bs => .ok (b :: bs)) :
    ∀ {as : List α} {bs : List β}, loop as = .ok bs ↔ List.Forall₂ (fun a b => f a = .ok b) as bs
  | [], bs => by
    rw [hnil]
    constructor
    · intro h
      rw [← Except.ok.inj h]
      exact .nil
    · intro h
      cases h
      rfl
  | a :: as, bs => by
    rw [hcons]
    constructor
    · intro h
      obtain ⟨b, hfirst, hthen⟩ := bind_eq_ok h
      obtain ⟨rest, hrest, hbs⟩ := bind_eq_ok hthen
      rw [← Except.ok.inj hbs]
      exact .cons hfirst ((forall₂_of_collects loop hnil hcons).mp hrest)
    · intro h
      cases h with
      | cons hfirst hrest =>
        rw [hfirst, (forall₂_of_collects loop hnil hcons).mpr hrest]
        rfl

/-- A loop that collects runs through two lists one after the other. -/
theorem append_of_collects (loop : List α → Except ε (List β)) {f : α → Except ε β}
    (hnil : loop [] = .ok [])
    (hcons : ∀ a as, loop (a :: as) = (f a).bind fun b => (loop as).bind fun bs => .ok (b :: bs)) :
    ∀ as as' : List α, loop (as ++ as') = (loop as).bind fun bs => (loop as').map (bs ++ ·)
  | [], as' => by
    rw [hnil]
    show loop as' = (loop as').map ([] ++ ·)
    cases loop as' <;> rfl
  | a :: as, as' => by
    rw [List.cons_append, hcons, hcons, append_of_collects loop hnil hcons as as']
    cases f a with
    | error e => rfl
    | ok b =>
      cases loop as with
      | error e => rfl
      | ok bs => cases loop as' <;> rfl

end Except

/-! ## Checks -/

/-- `x` throws the first complaint, and returns a result with `P` when there is none.  The
    complaints after the first are about checks the computation no longer makes; they are there
    for the rules to compose. -/
inductive Checked {ε α : Type} (P : α → Prop) : List ε → Except ε α → Prop where
  | ok {a : α} (holds : P a) : Checked P [] (.ok a)
  | error (e : ε) (others : List ε) : Checked P (e :: others) (.error e)

namespace Checked

variable {ε α β : Type} {P : α → Prop} {Q : β → Prop} {complaints others : List ε}
  {x : Except ε α}

/-! ## What a checked computation tells

  Both directions: it returns exactly when there is no complaint, and throws exactly the first one.
-/

/-- It returns exactly when there is no complaint. -/
theorem returns_iff (h : Checked P complaints x) : (∃ a, x = .ok a) ↔ complaints = [] := by
  constructor
  · rintro ⟨a, rfl⟩
    cases h with
    | ok holds => rfl
  · rintro rfl
    cases h with
    | ok holds => exact ⟨_, rfl⟩

theorem of_ok (h : Checked P complaints x) {a : α} (hx : x = .ok a) : P a := by
  subst hx
  cases h with
  | ok holds => exact holds

/-- It throws exactly the first complaint. -/
theorem throws_iff (h : Checked P complaints x) {e : ε} :
    x = .error e ↔ complaints.head? = some e := by
  cases h with
  | ok holds =>
    constructor
    · intro hx
      cases hx
    · intro hhead
      cases hhead
  | error e' others =>
    constructor
    · intro hx
      rw [Except.error.inj hx, List.head?_cons]
    · intro hhead
      rw [Option.some.inj hhead]

/-- What holds of every complaint holds of what is thrown. -/
theorem raises (h : Checked P complaints x) {E : ε → Prop} (hall : ∀ e ∈ complaints, E e) {e : ε}
    (hx : x = .error e) : E e := by
  subst hx
  cases h with
  | error e others => exact hall e List.mem_cons_self

/-- The first complaint about a list is about the first element there is a complaint about. -/
theorem head?_flatMap_iff {f : α → List ε} {xs : List α} {e : ε} :
    (xs.flatMap f).head? = some e ↔ ∃ before a after, xs = before ++ a :: after ∧
      (∀ b ∈ before, f b = []) ∧ (f a).head? = some e := by
  rw [List.head?_flatMap, List.findSome?_eq_some_iff]
  constructor
  · rintro ⟨before, a, after, rfl, hhead, hnone⟩
    exact ⟨before, a, after, rfl, fun b hb => List.head?_eq_none_iff.mp (hnone b hb), hhead⟩
  · rintro ⟨before, a, after, rfl, hnil, hhead⟩
    exact ⟨before, a, after, rfl, hhead, fun b hb => List.head?_eq_none_iff.mpr (hnil b hb)⟩

/-! ## The rules

  One rule for each way in which code is put together.  With them a function is shown to be checked
  by following its text, and the lists of complaints are appended in the order of the checks. -/

theorem mono {P' : α → Prop} (h : Checked P complaints x) (hP : ∀ a, P a → P' a) :
    Checked P' complaints x := by
  cases h with
  | ok holds => exact .ok (hP _ holds)
  | error e others => exact .error e others

/-- The result is the one that is returned; this is how a later check can refer to it. -/
theorem keepResult (h : Checked P complaints x) :
    Checked (fun a => P a ∧ x = .ok a) complaints x := by
  cases h with
  | ok holds => exact .ok ⟨holds, rfl⟩
  | error e others => exact .error e others

/-- One computation after another: the complaints of the first come first. -/
theorem bind {f : α → Except ε β} (h : Checked P complaints x)
    (hf : ∀ a, P a → Checked Q others (f a)) : Checked Q (complaints ++ others) (x.bind f) := by
  cases h with
  | ok holds => exact hf _ holds
  | error e rest => exact .error e (rest ++ others)

/-- A function after a computation adds no complaint. -/
theorem map {f : α → β} (h : Checked P complaints x) (hf : ∀ a, P a → Q (f a)) :
    Checked Q complaints (x.map f) := by
  cases h with
  | ok holds => exact .ok (hf _ holds)
  | error e others => exact .error e others

/-- A loop that collects: one element, then the rest. -/
theorem cons {P : α → Prop} {Ps : List α → Prop} {Q : List α → Prop} {x : Except ε α}
    {y : Except ε (List α)} (h : Checked P complaints x) (hrest : Checked Ps others y)
    (hQ : ∀ a as, P a → Ps as → Q (a :: as)) :
    Checked Q (complaints ++ others) (x.bind fun a => y.bind fun as => .ok (a :: as)) := by
  refine h.bind fun a ha => ?_
  rw [← List.append_nil others]
  exact hrest.bind fun as has => .ok (hQ a as ha has)

/-- A single demand. -/
def complainUnless (demand : Prop) [Decidable demand] (e : ε) : List ε :=
  if demand then [] else [e]

theorem complainUnless_eq_nil {demand : Prop} [Decidable demand] {e : ε} :
    complainUnless demand e = [] ↔ demand := by
  unfold complainUnless
  split
  · rename_i h
    exact ⟨fun _ => h, fun _ => rfl⟩
  · rename_i h
    exact ⟨fun hnil => absurd hnil (List.cons_ne_nil e []), fun hd => absurd hd h⟩

/-- The complaint about a demand is the one that was given with it. -/
theorem forall_complainUnless {demand : Prop} [Decidable demand] {e : ε} {E : ε → Prop}
    (he : E e) : ∀ e' ∈ complainUnless demand e, E e' := by
  intro e' hmem
  unfold complainUnless at hmem
  split at hmem
  · cases hmem
  · rw [List.mem_singleton.mp hmem]
    exact he

/-- A demand before a computation: `if (!demand) throw e;`. -/
theorem demand {demand : Prop} [Decidable demand] {e : ε} (hok : demand → Checked P complaints x) :
    Checked P (complainUnless demand e ++ complaints) (if demand then x else .error e) := by
  unfold complainUnless
  split
  · rename_i h
    exact hok h
  · exact .error e complaints

end Checked
