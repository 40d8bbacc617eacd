/-
  What the text of a predicate tells about it.

  EXPLAIN shows a filter as text: field names without quotes, strings in quotes but not escaped,
  doubles rounded to six digits, the comparisons joined by ` AND `.  Such a text can be read in two
  ways only where a field name or a string contains what separates the parts.  `LegibleMatch` rules
  that out: no field name holds an operator between blanks, and no string holds a quote before `
  AND `.

  * **Characters of a number** — digits, signs, a point, and the letters of `inf`, `nan` and the
    exponent; none of them is a quote or a blank, so the text of a number ends where a blank
    stands.
  * **The text of a literal** — a string begins with a quote, any other literal does not.  Literals
    with the same text are equal, except for numbers (`eq_of_describe`).
  * **Reading back (`matchText_reads`)** — two legible matches with the same text compare the same
    fields by the same operators, with literals that are shown alike.  The induction is over the
    comparisons; each step splits off a field name at the first operator between blanks, and a
    literal at its closing quote or at the first blank.
-/
import QueryLume.BinderAcceptance
import QueryLume.Explain.Describe
import QueryLume.Foundation.Delimiters

namespace QueryLume

/-! ## The characters of a number

  Whatever number is written, its text has no blank, no quote and no dollar sign, and these are
  what the reading looks for. -/

/-- The characters numbers are written with. -/
def IsNumberChar (c : Char) : Prop := c.isDigit = true ∨ c ∈ ['-', '+', '.', 'e', 'i', 'n', 'f', 'a']

instance (c : Char) : Decidable (IsNumberChar c) := inferInstanceAs (Decidable (_ ∨ _))

/-- A text of nothing but such characters. -/
def IsNumberText (text : String) : Prop := ∀ c ∈ text.toList, IsNumberChar c

/-- Joining texts of numbers adds no other character. -/
theorem IsNumberText.append {text text' : String} (h : IsNumberText text) (h' : IsNumberText text') :
    IsNumberText (text ++ text') := by
  intro c hc
  rw [String.toList_append, List.mem_append] at hc
  rcases hc with hc | hc
  · exact h c hc
  · exact h' c hc

/-- A text that can be checked character by character. -/
theorem isNumberText_of_all {text : String}
    (h : (text.toList.all fun c => decide (IsNumberChar c)) = true) : IsNumberText text := by
  intro c hc
  exact of_decide_eq_true (List.all_eq_true.mp h c hc)

theorem isNumberText_ofList {chars : List Char} (h : ∀ c ∈ chars, c.isDigit = true) :
    IsNumberText (String.ofList chars) := by
  intro c hc
  rw [String.toList_ofList] at hc
  exact .inl (h c hc)

/-- A natural number has digits only. -/
theorem isNumberText_toString (n : Nat) : IsNumberText (toString n) := by
  rw [Nat.toString_eq_ofList_toDigits]
  exact isNumberText_ofList fun c hc => Nat.isDigit_of_mem_toDigits (by decide) (by decide) hc

/-- An integer may have a sign. -/
theorem isNumberText_toString_int (z : Int) : IsNumberText (toString z) := by
  cases z with
  | ofNat n => exact isNumberText_toString n
  | negSucc n =>
    have hminus : IsNumberText "-" := isNumberText_of_all (by decide)
    exact hminus.append (isNumberText_toString (n + 1))

/-- The digits of a double are digits. -/
theorem significantDigits_isDigit (p q : Nat) :
    ∀ c ∈ (Binary64.significantDigits p q).1, c.isDigit = true := by
  intro c hc
  simp only [Binary64.significantDigits] at hc
  have hdigit : ∀ n, c ∈ Nat.toDigits 10 n → c.isDigit = true := fun n =>
    Nat.isDigit_of_mem_toDigits (by decide) (by decide)
  -- large or small, and rounded up to seven digits or not
  split at hc <;> split at hc <;> dsimp only at hc <;> exact hdigit _ hc

theorem isNumberText_fraction {digits : List Char} (h : ∀ c ∈ digits, c.isDigit = true) :
    IsNumberText (Binary64.fraction digits) := by
  unfold Binary64.fraction
  split
  · intro c hc
    cases hc
  · have hpoint : IsNumberText "." := isNumberText_of_all (by decide)
    refine hpoint.append (isNumberText_ofList fun c hc => h c ?_)
    exact List.mem_reverse.mp ((List.dropWhile_sublist _).mem (List.mem_reverse.mp hc))

/-- Fixed or scientific, a positive number is written with these characters. -/
theorem isNumberText_formatPositive (p q : Nat) : IsNumberText (Binary64.formatPositive p q) := by
  have hdigits := significantDigits_isDigit p q
  have hexponent : ∀ negative : Prop, [Decidable negative] →
      IsNumberText (if negative then "e-" else "e+") := by
    intro negative _
    split <;> exact isNumberText_of_all (by decide)
  have hpad : ∀ short : Prop, [Decidable short] → IsNumberText (if short then "0" else "") := by
    intro short _
    split <;> exact isNumberText_of_all (by decide)
  have hzero : IsNumberText "0" := isNumberText_of_all (by decide)
  unfold Binary64.formatPositive
  generalize Binary64.significantDigits p q = result at hdigits ⊢
  obtain ⟨digits, e⟩ := result
  have htake : ∀ n, ∀ c ∈ digits.take n, c.isDigit = true := fun n c hc =>
    hdigits c (List.mem_of_mem_take hc)
  have hdrop : ∀ n, ∀ c ∈ digits.drop n, c.isDigit = true := fun n c hc =>
    hdigits c (List.mem_of_mem_drop hc)
  simp only
  split
  · split
    · exact (isNumberText_ofList (htake _)).append (isNumberText_fraction (hdrop _))
    · refine hzero.append (isNumberText_fraction fun c hc => ?_)
      rcases List.mem_append.mp hc with hc | hc
      · rw [List.eq_of_mem_replicate hc]
        decide
      · exact hdigits c hc
  · exact ((((isNumberText_ofList (htake _)).append (isNumberText_fraction (hdrop _))).append
      (hexponent _)).append (hpad _)).append (isNumberText_toString _)

/-- And so is any double, the infinities and NaN included. -/
theorem isNumberText_format (d : Binary64) : IsNumberText d.format := by
  cases d with
  | nan => exact isNumberText_of_all (by decide)
  | infinity negative => cases negative <;> exact isNumberText_of_all (by decide)
  | finite x =>
    have hsign : IsNumberText (if x.negative then "-" else "") := by
      split <;> exact isNumberText_of_all (by decide)
    rw [Binary64.format]
    refine hsign.append ?_
    split
    · exact isNumberText_of_all (by decide)
    · exact isNumberText_formatPositive _ _

/-! ## The text of a literal

  The first character tells a string from everything else.  Two literals are shown alike only if
  they are equal, or numbers of which one is a double. -/

/-- The text of everything but strings: no blank, no quote, no dollar. -/
theorem describe_plain {value : Value} (h : typeOf value ≠ .kString) :
    ∀ c ∈ value.describe.toList, c ≠ ' ' ∧ c ≠ '"' ∧ c ≠ '$' := by
  have hnumber : ∀ {text : String}, IsNumberText text →
      ∀ c ∈ text.toList, c ≠ ' ' ∧ c ≠ '"' ∧ c ≠ '$' := by
    intro text htext c hc
    have hchar := htext c hc
    refine ⟨?_, ?_, ?_⟩ <;> (rintro rfl; exact absurd hchar (by decide))
  have hword : ∀ {text : String}, ' ' ∉ text.toList → '"' ∉ text.toList → '$' ∉ text.toList →
      ∀ c ∈ text.toList, c ≠ ' ' ∧ c ≠ '"' ∧ c ≠ '$' := by
    intro text hblank hquote hdollar c hc
    refine ⟨?_, ?_, ?_⟩ <;> rintro rfl
    · exact hblank hc
    · exact hquote hc
    · exact hdollar hc
  cases value with
  | null => exact hword (by decide) (by decide) (by decide)
  | bool b => cases b <;> exact hword (by decide) (by decide) (by decide)
  | int64 i => exact hnumber (isNumberText_toString_int _)
  | double d => exact hnumber (isNumberText_format d)
  | string s => exact absurd rfl h

/-- The text of a number has no quote and no blank. -/
theorem isNumberText_describe {value : Value} (h : isNumeric (typeOf value) = true) :
    IsNumberText value.describe := by
  cases value with
  | int64 i => exact isNumberText_toString_int _
  | double d => exact isNumberText_format d
  | null | bool b | string s => cases h

/-- An integer is told by its text. -/
theorem toString_int_injective {a b : Int} (h : toString a = toString b) : a = b := by
  have hnat : ∀ {m n : Nat}, toString m = toString n → m = n := by
    intro m n h
    rw [Nat.toString_eq_ofList_toDigits, Nat.toString_eq_ofList_toDigits] at h
    have hdigits := congrArg (fun chars => Nat.ofDigitChars 10 chars 0) (String.ofList_injective h)
    simpa only [Nat.ofDigitChars_ten_toDigits] using hdigits
  have hsign : ∀ m n : Nat, toString m ≠ "-" ++ toString n := by
    intro m n h
    have hmem : '-' ∈ (toString m).toList := by
      rw [h, String.toList_append]
      exact List.mem_cons_self
    rw [Nat.toString_eq_ofList_toDigits, String.toList_ofList] at hmem
    exact absurd (Nat.isDigit_of_mem_toDigits (by decide) (by decide) hmem) (by decide)
  cases a with
  | ofNat m =>
    cases b with
    | ofNat n => exact congrArg Int.ofNat (hnat h)
    | negSucc n => exact absurd h (hsign m (n + 1))
  | negSucc m =>
    cases b with
    | ofNat n => exact absurd h.symm (hsign n (m + 1))
    | negSucc n =>
      have hsucc : m + 1 = n + 1 := hnat (String.append_right_inj "-" |>.mp h)
      exact congrArg Int.negSucc (Nat.succ.inj hsucc)

/-- **Literals that are shown alike** are equal, unless they are numbers and one is a double. -/
theorem eq_of_describe {a b : Value} (h : a.describe = b.describe) :
    a = b ∨ (isNumeric (typeOf a) = true ∧ isNumeric (typeOf b) = true ∧
      (typeOf a = .kDouble ∨ typeOf b = .kDouble)) := by
  have hquote : ∀ {s : String} {value : Value}, typeOf value ≠ .kString →
      (Value.string s).describe ≠ value.describe := by
    intro s value hplain h
    have hmem : '"' ∈ value.describe.toList := by
      rw [← h, Value.describe, String.toList_append, String.toList_append]
      exact List.mem_cons_self
    exact (describe_plain hplain _ hmem).2.1 rfl
  have hword : ∀ {word : String} {value : Value}, ¬ IsNumberText word →
      isNumeric (typeOf value) = true → word ≠ value.describe := by
    rintro word value hword hnumeric rfl
    exact hword (isNumberText_describe hnumeric)
  have hnull : ¬ IsNumberText "null" := fun h => absurd (h 'u' (by decide)) (by decide)
  have hbool : ∀ b, ¬ IsNumberText (Value.bool b).describe := by
    intro b h
    cases b with
    | false => exact absurd (h 'l' (by decide)) (by decide)
    | true => exact absurd (h 't' (by decide)) (by decide)
  cases a with
  | null =>
    cases b with
    | null => exact .inl rfl
    | bool y => revert h; cases y <;> decide
    | int64 j | double d => exact absurd h (hword hnull rfl)
    | string t => exact absurd h.symm (hquote (by decide))
  | bool x =>
    cases b with
    | null => revert h; cases x <;> decide
    | bool y => revert h; cases x <;> cases y <;> decide
    | int64 j | double d => exact absurd h (hword (hbool x) rfl)
    | string t => exact absurd h.symm (hquote (fun h => by cases h))
  | int64 i =>
    cases b with
    | null => exact absurd h.symm (hword hnull rfl)
    | bool y => exact absurd h.symm (hword (hbool y) rfl)
    | int64 j => exact .inl (congrArg Value.int64 (Int64.toInt_inj.mp (toString_int_injective h)))
    | double d => exact .inr ⟨rfl, rfl, .inr rfl⟩
    | string t => exact absurd h.symm (hquote (fun h => by cases h))
  | double d =>
    cases b with
    | null => exact absurd h.symm (hword hnull rfl)
    | bool y => exact absurd h.symm (hword (hbool y) rfl)
    | int64 j | double d' => exact .inr ⟨rfl, rfl, .inl rfl⟩
    | string t => exact absurd h.symm (hquote (fun h => by cases h))
  | string s =>
    cases b with
    | null | bool y | int64 j | double d => exact absurd h (hquote (fun h => by cases h))
    | string t =>
      have hchars := congrArg String.toList h
      simp only [Value.describe, String.toList_append] at hchars
      have htail := (List.append_inj' hchars rfl).1
      exact .inl (congrArg Value.string (String.toList_inj.mp (List.append_cancel_left htail)))

/-! ## The text of a match

  What EXPLAIN shows of a bound `$match`, in terms of the parsed one. -/

/-- The text of a bound comparison. -/
def ParsedComparison.text (predicate : ParsedComparison) : List Char :=
  predicate.field.fieldName.toList ++
    ' ' :: (predicate.opToken.toList ++ ' ' :: predicate.literal.describe.toList)

/-- The text after a comparison: the others, each with the separator before it. -/
def followingText : List ParsedComparison → List Char
  | [] => []
  | predicate :: predicates => " AND ".toList ++ (predicate.text ++ followingText predicates)

theorem followingText_cons (predicate : ParsedComparison) (predicates : List ParsedComparison) :
    followingText (predicate :: predicates) =
      " AND ".toList ++ (predicate.text ++ followingText predicates) := rfl

/-- The text of a whole match. -/
def matchText : List ParsedComparison → List Char
  | [] => "true".toList
  | predicate :: predicates => predicate.text ++ followingText predicates

/-- The token of an operator is the text it is shown as. -/
theorem token_of_known {token : String} {op : ComparisonOperator}
    (h : parseComparisonOperator token = some op) : token = op.toString := by
  unfold parseComparisonOperator at h
  cases op <;> grind [ComparisonOperator.toString]

/-- A bound comparison is shown as the parsed one reads. -/
theorem describe_comparison {schema : Schema} {parsed : ParsedComparison} {expression : Expression}
    (h : BindsComparison schema parsed expression) : expression.describe.toList = parsed.text := by
  obtain ⟨index, op, addresses, known⟩ := h
  have htoken := token_of_known known
  simp only [Expression.describe, ParsedComparison.text, htoken, String.toList_append,
    List.append_assoc]
  rfl

/-- A conjunction is shown as its operands read, joined by ` AND `. -/
theorem describeOperands_text {schema : Schema} {parsed : ParsedComparison} {operand : Expression}
    {predicates : List ParsedComparison} {operands : List Expression}
    (hfirst : BindsComparison schema parsed operand)
    (hrest : List.Forall₂ (BindsComparison schema) predicates operands) :
    (Expression.describeOperands (operand :: operands)).toList =
      parsed.text ++ followingText predicates := by
  induction hrest generalizing parsed operand with
  | nil =>
    rw [Expression.describeOperands, describe_comparison hfirst]
    exact (List.append_nil _).symm
  | @cons next nextOperand predicates operands hnext _ ih =>
    have hjoined : Expression.describeOperands (operand :: nextOperand :: operands) =
        operand.describe ++ " AND " ++ Expression.describeOperands (nextOperand :: operands) := by
      rw [Expression.describeOperands]
      exact fun h => by cases h
    rw [hjoined, String.toList_append, String.toList_append, describe_comparison hfirst, ih hnext,
      followingText_cons, List.append_assoc]

/-- What EXPLAIN shows of a bound `$match`. -/
theorem describe_match {schema : Schema} {predicates : List ParsedComparison}
    {predicate : Expression} (h : BindsMatch schema predicates predicate) :
    predicate.describe.toList = matchText predicates := by
  cases h with
  | always =>
    show "true".toList = matchText []
    rw [matchText]
  | single binds =>
    rw [describe_comparison binds]
    exact (List.append_nil _).symm
  | conjunction binds =>
    cases binds with
    | nil => rfl
    | cons hfirst hrest =>
      have htext := describeOperands_text hfirst hrest
      rw [Expression.describe]
      split
      · -- the text is not empty: there is a blank in it
        rename_i hempty
        rw [hempty, ParsedComparison.text] at htext
        simp at htext
      · exact htext

/-! ## Reading it back

  Two texts that are equal are read side by side: the field up to the blank before the token, the
  token, the literal up to the separator or to the end, and so on with the rest. -/

/-- The text of the predicate shows where its parts end. -/
structure ParsedComparison.Legible (predicate : ParsedComparison) : Prop where
  field : ∀ token ∈ operatorTokens,
    ¬ (" " ++ token ++ " ").toList <:+: predicate.field.fieldName.toList
  literal : ∀ s, predicate.literal = .string s → ¬ "\" AND ".toList <:+: s.toList

/-- The same field, the same operator, and literals that are shown alike. -/
structure ParsedComparison.SameText (predicate predicate' : ParsedComparison) : Prop where
  field : predicate.field = predicate'.field
  opToken : predicate.opToken = predicate'.opToken
  literal : predicate.literal.describe = predicate'.literal.describe

/-- After a comparison there is nothing, or ` AND `. -/
theorem followingText_cases (predicates : List ParsedComparison) :
    followingText predicates = [] ∨ " AND ".toList <+: followingText predicates := by
  cases predicates with
  | nil => exact .inl rfl
  | cons predicate predicates => exact .inr ⟨_, rfl⟩

/-- What a literal that is no string begins with, or the separator after it. -/
theorem head_plain {value : Value} (hplain : typeOf value ≠ .kString) {rest : List Char}
    (hrest : rest = [] ∨ " AND ".toList <+: rest) {c : Char}
    (hc : (value.describe.toList ++ rest).head? = some c) : c ≠ '"' ∧ c ≠ '$' := by
  have hchars := describe_plain hplain
  generalize value.describe.toList = chars at hc hchars
  cases chars with
  | nil =>
    rcases hrest with rfl | ⟨more, rfl⟩
    · cases hc
    · rw [← Option.some.inj hc]
      decide
  | cons first chars =>
    rw [← Option.some.inj hc]
    exact (hchars first List.mem_cons_self).2

/-- A string stands between two quotes. -/
theorem describe_string (s : String) :
    (Value.string s).describe.toList = '"' :: (s.toList ++ ['"']) := by
  rw [Value.describe, String.toList_append, String.toList_append, List.append_assoc]
  rfl

/-- No literal begins with an operator. -/
theorem literal_not_token {token : String} (htoken : token ∈ operatorTokens) (value : Value)
    {rest : List Char} (hrest : rest = [] ∨ " AND ".toList <+: rest) :
    ¬ token.toList <+: value.describe.toList ++ rest := by
  rintro ⟨more, h⟩
  have hdollar : (value.describe.toList ++ rest).head? = some '$' := by
    rw [← h]
    simp only [operatorTokens, List.mem_cons, List.not_mem_nil, or_false] at htoken
    rcases htoken with rfl | rfl | rfl | rfl | rfl | rfl <;> rfl
  by_cases hstring : typeOf value = .kString
  · cases value with
    | string s =>
      rw [describe_string] at hdollar
      exact absurd (Option.some.inj hdollar) (by decide)
    | null | bool b | int64 i | double d => cases hstring
  · exact (head_plain hstring hrest hdollar).2 rfl

/-- **A literal before the separator.** -/
theorem literal_reads {a b : Value} (ha : ∀ s, a = .string s → ¬ "\" AND ".toList <:+: s.toList)
    (hb : ∀ s, b = .string s → ¬ "\" AND ".toList <:+: s.toList) {rest rest' : List Char}
    (hrest : rest = [] ∨ " AND ".toList <+: rest) (hrest' : rest' = [] ∨ " AND ".toList <+: rest')
    (h : a.describe.toList ++ rest = b.describe.toList ++ rest') :
    a.describe = b.describe ∧ rest = rest' := by
  have hstring : ∀ {value : Value}, typeOf value = .kString → ∃ s, value = .string s := by
    intro value htype
    cases value with
    | string s => exact ⟨s, rfl⟩
    | null | bool b | int64 i | double d => cases htype
  -- a string and something else differ in their first character
  have hmixed : ∀ {s : String} {value : Value} {rest rest' : List Char}, typeOf value ≠ .kString →
      rest' = [] ∨ " AND ".toList <+: rest' →
      (Value.string s).describe.toList ++ rest ≠ value.describe.toList ++ rest' := by
    intro s value rest rest' hplain hrest' h
    rw [describe_string] at h
    exact (head_plain hplain hrest' (congrArg List.head? h.symm)).1 rfl
  have hblank : ∀ {rest : List Char}, rest = [] ∨ " AND ".toList <+: rest →
      rest = [] ∨ [' '] <+: rest :=
    fun hcase => hcase.imp_right fun hstarts => .trans ⟨"AND ".toList, rfl⟩ hstarts
  by_cases hastring : typeOf a = .kString
  · obtain ⟨s, rfl⟩ := hstring hastring
    by_cases hbstring : typeOf b = .kString
    · obtain ⟨t, rfl⟩ := hstring hbstring
      rw [describe_string, describe_string, List.cons_append, List.cons_append, List.append_assoc,
        List.append_assoc] at h
      obtain ⟨hst, hrests⟩ := Delimiters.quoted_part (by decide) hrest hrest' (ha s rfl) (hb t rfl)
        (List.cons.inj h).2
      rw [String.toList_inj.mp hst]
      exact ⟨rfl, hrests⟩
    · exact absurd h (hmixed hbstring hrest')
  · by_cases hbstring : typeOf b = .kString
    · obtain ⟨t, rfl⟩ := hstring hbstring
      exact absurd h.symm (hmixed hastring hrest)
    · obtain ⟨hab, hrests⟩ := Delimiters.plain_part (fun hmem => (describe_plain hastring _ hmem).1 rfl)
        (fun hmem => (describe_plain hbstring _ hmem).1 rfl) (hblank hrest) (hblank hrest') h
      exact ⟨String.toList_inj.mp hab, hrests⟩

/-- **A comparison before the separator.** -/
theorem comparison_reads {predicate predicate' : ParsedComparison}
    (hknown : predicate.opToken ∈ operatorTokens) (hknown' : predicate'.opToken ∈ operatorTokens)
    (hlegible : predicate.Legible) (hlegible' : predicate'.Legible) {rest rest' : List Char}
    (hrest : rest = [] ∨ " AND ".toList <+: rest) (hrest' : rest' = [] ∨ " AND ".toList <+: rest')
    (h : predicate.text ++ rest = predicate'.text ++ rest') :
    predicate.SameText predicate' ∧ rest = rest' := by
  have hblank : ∀ token ∈ operatorTokens, ' ' ∉ token.toList := by decide
  have hfree : ∀ {name token : String}, ¬ (" " ++ token ++ " ").toList <:+: name.toList →
      ¬ ' ' :: (token.toList ++ [' ']) <:+: name.toList := by
    intro name token hnot
    rw [String.toList_append, String.toList_append] at hnot
    exact hnot
  simp only [ParsedComparison.text, List.append_assoc, List.cons_append] at h
  obtain ⟨hfield, htoken, hliterals⟩ := Delimiters.part_before_word (hblank _ hknown)
    (hblank _ hknown') (hfree (hlegible.field _ hknown')) (hfree (hlegible'.field _ hknown))
    (literal_not_token hknown' predicate.literal hrest)
    (literal_not_token hknown predicate'.literal hrest') h
  obtain ⟨hliteral, hrests⟩ :=
    literal_reads hlegible.literal hlegible'.literal hrest hrest' hliterals
  refine ⟨⟨?_, String.toList_inj.mp htoken, hliteral⟩, hrests⟩
  exact congrArg UnresolvedFieldExpression.mk (String.toList_inj.mp hfield)

/-- The predicates of a bound match whose texts show where their parts end. -/
def LegibleMatch (predicates : List ParsedComparison) : Prop :=
  ∀ predicate ∈ predicates, predicate.opToken ∈ operatorTokens ∧ predicate.Legible

/-- The comparisons after the first, by induction on the ones of the first reading. -/
theorem followingText_reads : ∀ {predicates predicates' : List ParsedComparison},
    LegibleMatch predicates → LegibleMatch predicates' →
    followingText predicates = followingText predicates' →
    List.Forall₂ ParsedComparison.SameText predicates predicates'
  | [], [], _, _, _ => .nil
  | [], _ :: _, _, _, h => by cases h
  | _ :: _, [], _, _, h => by cases h
  | predicate :: predicates, predicate' :: predicates', hlegible, hlegible', h => by
    have hfirst := hlegible predicate List.mem_cons_self
    have hfirst' := hlegible' predicate' List.mem_cons_self
    obtain ⟨hsame, hrest⟩ := comparison_reads hfirst.1 hfirst'.1 hfirst.2 hfirst'.2
      (followingText_cases predicates) (followingText_cases predicates')
      (List.append_cancel_left h)
    exact .cons hsame (followingText_reads
      (fun other hmem => hlegible other (List.mem_cons_of_mem _ hmem))
      (fun other hmem => hlegible' other (List.mem_cons_of_mem _ hmem)) hrest)

/-- **One reading.**  Matches with the same text compare the same fields by the same operators, with
    literals that are shown alike. -/
theorem matchText_reads {predicates predicates' : List ParsedComparison}
    (hlegible : LegibleMatch predicates) (hlegible' : LegibleMatch predicates')
    (h : matchText predicates = matchText predicates') :
    List.Forall₂ ParsedComparison.SameText predicates predicates' := by
  have htrue : ∀ (predicate : ParsedComparison) (predicates : List ParsedComparison),
      "true".toList ≠ matchText (predicate :: predicates) := by
    intro predicate predicates h
    have hmem : ' ' ∈ "true".toList := by
      rw [h, matchText, ParsedComparison.text]
      simp
    exact absurd hmem (by decide)
  cases predicates with
  | nil =>
    cases predicates' with
    | nil => exact .nil
    | cons predicate' predicates' => exact absurd h (htrue predicate' predicates')
  | cons predicate predicates =>
    cases predicates' with
    | nil => exact absurd h.symm (htrue predicate predicates)
    | cons predicate' predicates' =>
      refine followingText_reads hlegible hlegible' ?_
      exact congrArg (" AND ".toList ++ ·) h

end QueryLume
