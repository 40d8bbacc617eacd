/-
  Reading joined text back.

  A text is put together from parts with delimiters between them, and nothing in a part is escaped.
  Two ways to read the same text can only differ where a part holds a delimiter: if the part ends
  earlier in the one than in the other, then the delimiter after it reaches into the longer part,
  and goes on past its end only from a place where it repeats its first character
  (`delimiter_repeats`).

  Three kinds of parts come up in printed predicates, and each is told apart by what it must not
  hold: a part that ends at the next delimiter character (`plain_part`), a part in quotes
  (`quoted_part`), and a part before a word that stands between two blanks (`part_before_word`).
-/
import Mathlib.Data.List.Infix

namespace Delimiters

variable {α : Type} {c : α} {a b r t : List α}

/-- **The delimiter after the shorter part.**  The longer part does not hold it, so that part ends
    inside it, where its first character comes again. -/
theorem delimiter_repeats {d : List α} (h : a ++ c :: (d ++ r) = b ++ c :: t)
    (hlength : a.length < b.length) (hfree : ¬ c :: d <:+: b) :
    ∃ u v, d = u ++ c :: v ∧ t = v ++ r := by
  rcases List.append_eq_append_iff.mp h with ⟨inside, rfl, hinside⟩ | ⟨extra, rfl, -⟩
  · rcases inside with - | ⟨first, u⟩
    · rw [List.append_nil] at hlength
      omega
    obtain ⟨rfl, htail⟩ := List.cons.inj hinside
    rcases List.append_eq_append_iff.mp htail with ⟨more, rfl, -⟩ | ⟨v', rfl, hv'⟩
    · exact absurd ⟨a, more, by simp⟩ hfree
    rcases v' with - | ⟨next, v⟩
    · exact absurd ⟨a, [], by simp⟩ hfree
    obtain ⟨rfl, ht⟩ := List.cons.inj hv'
    exact ⟨u, v, rfl, ht⟩
  · rw [List.length_append] at hlength
    omega

/-- A part that ends at the next `c`, or at the end of the text. -/
theorem plain_part (hplain : c ∉ a) (hplain' : c ∉ b) {rest rest' : List α}
    (hrest : rest = [] ∨ [c] <+: rest) (hrest' : rest' = [] ∨ [c] <+: rest')
    (h : a ++ rest = b ++ rest') : a = b ∧ rest = rest' := by
  have hextra : ∀ {extra tail : List α}, c ∉ extra → extra ++ tail = [] ∨ [c] <+: extra ++ tail →
      extra = [] := by
    intro extra tail hmem hcase
    rcases extra with - | ⟨first, extra⟩
    · rfl
    rcases hcase with hnil | ⟨more, heq⟩
    · cases hnil
    · exact absurd (List.cons.inj heq).1 (List.ne_of_not_mem_cons hmem)
  rcases List.append_eq_append_iff.mp h with ⟨extra, rfl, rfl⟩ | ⟨extra, rfl, rfl⟩
  · obtain rfl := hextra (fun hmem => hplain' (List.mem_append_right a hmem)) hrest
    exact ⟨(List.append_nil a).symm, rfl⟩
  · obtain rfl := hextra (fun hmem => hplain (List.mem_append_right b hmem)) hrest'
    exact ⟨List.append_nil b, rfl⟩

/-- A part in quotes `c`, the separator after it without one. -/
theorem quoted_part {separator : List α} (hseparator : c ∉ separator) {rest rest' : List α}
    (hrest : rest = [] ∨ separator <+: rest) (hrest' : rest' = [] ∨ separator <+: rest')
    (hfree : ¬ c :: separator <:+: a) (hfree' : ¬ c :: separator <:+: b)
    (h : a ++ c :: rest = b ++ c :: rest') : a = b ∧ rest = rest' := by
  have hshorter : ∀ {a b rest rest' : List α}, rest = [] ∨ separator <+: rest →
      ¬ c :: separator <:+: b → a ++ c :: rest = b ++ c :: rest' → ¬ a.length < b.length := by
    intro a b rest rest' hrest hfree h hlength
    rcases hrest with rfl | ⟨more, rfl⟩
    · have htotal := congrArg List.length h
      simp only [List.length_append, List.length_cons, List.length_nil] at htotal
      omega
    · obtain ⟨u, v, rfl, -⟩ := delimiter_repeats h hlength hfree
      exact hseparator (List.mem_append_right u List.mem_cons_self)
  have hle := hshorter hrest hfree' h
  have hge := hshorter hrest' hfree h.symm
  obtain ⟨rfl, htail⟩ := List.append_inj h (by omega)
  exact ⟨rfl, (List.cons.inj htail).2⟩

/-- A part before a word between two blanks `c`; the text after does not begin with a word. -/
theorem part_before_word {w w' : List α} (hw : c ∉ w) (hw' : c ∉ w')
    (hfree : ¬ c :: (w' ++ [c]) <:+: a) (hfree' : ¬ c :: (w ++ [c]) <:+: b)
    (hafter : ¬ w' <+: r) (hafter' : ¬ w <+: t)
    (h : a ++ c :: (w ++ c :: r) = b ++ c :: (w' ++ c :: t)) : a = b ∧ w = w' ∧ r = t := by
  have hlast : ∀ {w u v : List α}, c ∉ w → w ++ [c] = u ++ c :: v → v = [] := by
    intro w u v hw heq
    rcases List.append_eq_append_iff.mp heq with ⟨between, -, hblank⟩ | ⟨between, rfl, hblank⟩
    · have hlength := congrArg List.length hblank
      simp only [List.length_append, List.length_cons, List.length_nil] at hlength
      exact List.eq_nil_of_length_eq_zero (by omega)
    · rcases between with - | ⟨first, between⟩
      · exact (List.cons.inj hblank).2
      · obtain ⟨rfl, -⟩ := List.cons.inj hblank
        exact absurd (List.mem_append_right u List.mem_cons_self) hw
  have hshorter : ∀ {a b w w' r t : List α}, c ∉ w → ¬ c :: (w ++ [c]) <:+: b → ¬ w' <+: r →
      a ++ c :: (w ++ c :: r) = b ++ c :: (w' ++ c :: t) → ¬ a.length < b.length := by
    intro a b w w' r t hw hfree hafter h hlength
    rw [List.append_cons w] at h
    obtain ⟨u, v, hrepeat, hword⟩ := delimiter_repeats h hlength hfree
    -- only the second of the two blanks repeats the first
    rw [hlast hw hrepeat, List.nil_append] at hword
    exact hafter ⟨c :: t, hword⟩
  have hle := hshorter hw hfree' hafter h
  have hge := hshorter hw' hfree hafter' h.symm
  obtain ⟨rfl, htail⟩ := List.append_inj h (by omega)
  obtain ⟨rfl, hrest⟩ := plain_part hw hw' (.inr ⟨r, rfl⟩) (.inr ⟨t, rfl⟩) (List.cons.inj htail).2
  exact ⟨rfl, rfl, (List.cons.inj hrest).2⟩

end Delimiters
