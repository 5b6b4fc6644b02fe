import SimStudio.Proofs.Number.Characters
import SimStudio.Proofs.Number.FloatText
import SimStudio.Yaml.Record
import SimStudio.Yaml.Tree.Write

/-!
# Numbers as Plain Scalars

A number that is written plain means that number, and is read as it wherever
one is expected.

An integer has no leading zero and announces no radix, since digits stand
behind its first one. A float is no integer, since behind its digits there is a
point or an exponent.

## Theorems

* `Yaml.unsigned?_text`, `Yaml.signed?_intText`: Integers where they are
  expected.
* `Yaml.meaning_intText`, `Yaml.meaning_floatText`: What written numbers mean.
* `Yaml.not_null_of_meaning`: What means something says that something stands
  there.
-/

namespace SimStudio

namespace Yaml

open Digits (isDigit_of_mem_text value?_text text_ne_nil head?_text_ne)

-- ## Integers

theorem dropPlus_cons {c : Char} (h : c ≠ '+') (cs : List Char) :
    dropPlus (c :: cs) = c :: cs := by
  unfold dropPlus
  split
  · rename_i heq
    exact absurd (List.cons.inj heq).1 h
  · rfl

theorem signFirst_cons {c : Char} {cs : List Char} (h : c.isDigit = true) :
    signFirst (c :: cs) = false := by
  have hplus : c ≠ '+' := by
    intro heq
    subst heq
    exact absurd h (by decide)
  have hminus : c ≠ '-' := by
    intro heq
    subst heq
    exact absurd h (by decide)
  simp [signFirst, hplus, hminus]

/-- Characters of which the second is no letter announce no radix. -/
theorem radixPrefix?_eq_none {cs : List Char}
    (h : ∀ c ∈ cs.tail.head?, c ≠ 'x' ∧ c ≠ 'o' ∧ c ≠ 'b') : radixPrefix? cs = none := by
  unfold radixPrefix?
  split
  · exact absurd rfl (h 'x' rfl).1
  · exact absurd rfl (h 'o' rfl).2.1
  · exact absurd rfl (h 'b' rfl).2.2
  · rfl

theorem ne_letters_of_isDigit {c : Char} (h : c.isDigit = true) : c ≠ 'x' ∧ c ≠ 'o' ∧ c ≠ 'b' := by
  refine ⟨?_, ?_, ?_⟩ <;>
    · intro heq
      subst heq
      exact absurd h (by decide)

theorem radixPrefix?_text (n : Nat) : radixPrefix? (Digits.text n) = none :=
  radixPrefix?_eq_none fun _ hc =>
    ne_letters_of_isDigit (isDigit_of_mem_text (List.mem_of_mem_tail (List.mem_of_mem_head? hc)))

theorem hasLeadingZero_text (n : Nat) : hasLeadingZero (Digits.text n) = false := by
  by_cases hn : n = 0
  · subst hn
    rfl
  · cases hds : Digits.text n with
    | nil => exact absurd hds (text_ne_nil n)
    | cons c cs =>
        have hc : c.isDigit = true := isDigit_of_mem_text (hds ▸ List.mem_cons_self)
        have hzero : c ≠ '0' := by
          intro heq
          exact head?_text_ne hn (by rw [hds, heq]; rfl)
        simp [hasLeadingZero, signFirst_cons hc, hzero]

theorem hasLeadingZero_minus {cs : List Char} (h : signFirst cs = false) :
    hasLeadingZero ('-' :: cs) = hasLeadingZero cs := by
  have hminus : signFirst ('-' :: cs) = true := rfl
  simp only [hasLeadingZero, h, hminus, Bool.false_eq_true, if_true, if_false, List.drop_succ_cons,
    List.drop_zero]

theorem exists_text_eq (n : Nat) : ∃ c cs, Digits.text n = c :: cs ∧ c.isDigit = true := by
  cases hds : Digits.text n with
  | nil => exact absurd hds (text_ne_nil n)
  | cons c cs => exact ⟨c, cs, rfl, isDigit_of_mem_text (hds ▸ List.mem_cons_self)⟩

theorem signFirst_text (n : Nat) : signFirst (Digits.text n) = false := by
  obtain ⟨c, cs, hds, hc⟩ := exists_text_eq n
  rw [hds, signFirst_cons hc]

theorem dropPlus_text (n : Nat) : dropPlus (Digits.text n) = Digits.text n := by
  obtain ⟨c, cs, hds, hc⟩ := exists_text_eq n
  rw [hds, dropPlus_cons]
  intro heq
  subst heq
  exact absurd hc (by decide)

theorem unsigned?_text {bound n : Nat} (h : n < bound) :
    unsigned? bound (Digits.text n) = some n := by
  simp only [unsigned?, dropPlus_text, radixPrefix?_text, signFirst_text, hasLeadingZero_text,
    Bool.or_false, Bool.false_eq_true, if_false, value?_text, Option.bind_some, below?, if_pos h]

theorem unsigned?_minus (bound : Nat) (cs : List Char) : unsigned? bound ('-' :: cs) = none := by
  have hradix : radixPrefix? ('-' :: cs) = none := by
    unfold radixPrefix?
    split <;> first | rfl | (rename_i heq; exact absurd (List.cons.inj heq).1 (by decide))
  simp [unsigned?, dropPlus_cons (show '-' ≠ '+' by decide), hradix, signFirst]

theorem negated?_text {bound n : Nat} (h : n ≤ bound) :
    negated? bound ('-' :: Digits.text n) = some (-(n : Int)) := by
  simp only [negated?, radixPrefix?_text, hasLeadingZero_minus (signFirst_text n),
    hasLeadingZero_text, Bool.false_eq_true, if_false, value?_text, Option.bind_some, if_pos h]

/-- A written integer, by its sign. -/
theorem intText_cases (i : Int) :
    (0 ≤ i ∧ (toString i).toList = Digits.text i.natAbs) ∨
      (i < 0 ∧ (toString i).toList = '-' :: Digits.text i.natAbs) := by
  rw [intText_eq]
  by_cases h : i < 0
  · exact .inr ⟨h, by rw [if_pos h, List.singleton_append]⟩
  · exact .inl ⟨by omega, by rw [if_neg h, List.nil_append]⟩

theorem signed?_intText {i : Int} (h : -2 ^ 63 ≤ i ∧ i < 2 ^ 63) :
    signed? (toString i).toList = some i := by
  rcases intText_cases i with ⟨hi, htext⟩ | ⟨hi, htext⟩
  · obtain ⟨c, cs, hds, hc⟩ := exists_text_eq i.natAbs
    have hunsigned := unsigned?_text (show i.natAbs < 2 ^ 63 by omega)
    rw [htext]
    unfold signed?
    split
    · rename_i rest heq
      rw [hds] at heq
      rw [(List.cons.inj heq).1] at hc
      exact absurd hc (by decide)
    · rw [hunsigned, Option.map_some]
      exact congrArg some (by rw [Int.ofNat_eq_natCast]; omega)
  · rw [htext, signed?, negated?_text (by omega)]
    exact congrArg some (by omega)

theorem int?_intText {i : Int} (h : -2 ^ 63 ≤ i ∧ i < 2 ^ 64) :
    int? (toString i).toList = some i := by
  rcases intText_cases i with ⟨hi, htext⟩ | ⟨hi, htext⟩
  · rw [htext, int?, unsigned?_text (by omega), Option.map_some, Option.some_or]
    exact congrArg some (by rw [Int.ofNat_eq_natCast]; omega)
  · rw [htext, int?, unsigned?_minus, negated?_text (by omega), Option.map_none, Option.none_or,
      Option.some_or]
    exact congrArg some (by omega)

-- ## Names

/-- A text that begins with a digit or a minus sign is the name of nothing. -/
theorem not_named {s : String} {c : Char} {cs : List Char} (h : s.toList = c :: cs)
    (hc : c.isDigit = true ∨ c = '-') :
    (s.isEmpty || isNullName s) = false ∧ bool? s = none := by
  have hne : ∀ name ∈ ["", "null", "Null", "NULL", "~", "true", "True", "TRUE", "false", "False",
      "FALSE"], s ≠ name := by
    intro name hname heq
    have hfirst : ∀ d ∈ name.toList.head?, d.isDigit = false ∧ d ≠ '-' := by
      have hall : (["", "null", "Null", "NULL", "~", "true", "True", "TRUE", "false", "False",
          "FALSE"].all fun name => name.toList.head?.all fun d => !d.isDigit && d != '-') = true := by
        decide
      intro d hd
      have hd' := List.all_eq_true.mp hall name hname
      rw [Option.mem_def.mp hd, Option.all_some, Bool.and_eq_true, Bool.not_eq_true',
        bne_iff_ne] at hd'
      exact hd'
    rw [← heq, h] at hfirst
    rcases hc with hc | hc
    · rw [(hfirst c rfl).1] at hc
      exact Bool.noConfusion hc
    · exact (hfirst c rfl).2 hc
  have hempty : s.isEmpty = false := by
    rw [← Bool.not_eq_true, String.isEmpty_iff]
    exact hne "" (by simp)
  refine ⟨?_, ?_⟩
  · simp [hempty, isNullName, hne]
  · simp [bool?, hne]

theorem not_named_intText (i : Int) :
    ((toString i).isEmpty || isNullName (toString i)) = false ∧ bool? (toString i) = none := by
  rcases intText_cases i with ⟨-, htext⟩ | ⟨-, htext⟩
  · obtain ⟨c, cs, hds, hc⟩ := exists_text_eq i.natAbs
    exact not_named (htext.trans hds) (.inl hc)
  · exact not_named htext (.inr rfl)

theorem meaning_intText {i : Int} (h : -2 ^ 63 ≤ i ∧ i < 2 ^ 64) :
    meaning (toString i) = .int i := by
  obtain ⟨hnull, hbool⟩ := not_named_intText i
  simp only [meaning, hnull, hbool, int?_intText h, Bool.false_eq_true, if_false]

-- ## Floats

section Marked

-- A digit, further digits, and a mark that is none.
variable {c mark : Char} {whole rest : List Char} (hc : c.isDigit = true)
  (hwhole : ∀ d ∈ whole, d.isDigit = true) (hmark : mark = '.' ∨ mark = 'e')

include hmark in
theorem value?_marked : Digits.value? 10 (c :: (whole ++ mark :: rest)) = none := by
  have hstop : ∀ n, Digits.readOn 10 n (mark :: rest) = none := by
    intro n
    rcases hmark with rfl | rfl <;> rfl
  rw [Digits.value?, List.isEmpty_cons, if_neg Bool.false_ne_true, ← List.cons_append,
    Digits.readOn_append]
  cases Digits.readOn 10 0 (c :: whole) with
  | none => rfl
  | some n => exact hstop n

include hwhole hmark in
theorem radixPrefix?_marked : radixPrefix? (c :: (whole ++ mark :: rest)) = none := by
  refine radixPrefix?_eq_none fun d hd => ?_
  cases whole with
  | nil =>
      have hd' : mark = d := Option.some.inj hd
      subst hd'
      rcases hmark with rfl | rfl <;> decide
  | cons x whole =>
      have hd' : x = d := Option.some.inj hd
      subst hd'
      exact ne_letters_of_isDigit (hwhole x List.mem_cons_self)

include hc hmark in
theorem hasLeadingZero_marked (whole rest : List Char) :
    hasLeadingZero (c :: (whole ++ mark :: rest)) = false := by
  have hnot : (whole ++ mark :: rest).all Char.isDigit = false := by
    have hmark' : mark.isDigit = false := by
      rcases hmark with rfl | rfl <;> decide
    simp [hmark']
  unfold hasLeadingZero
  rw [signFirst_cons hc, if_neg Bool.false_ne_true]
  split
  · rename_i d ds heq
    rw [← (List.cons.inj heq).2, hnot]
  · rfl

include hc in
theorem dropPlus_digit (cs : List Char) : dropPlus (c :: cs) = c :: cs :=
  dropPlus_cons (by rintro rfl; exact absurd hc (by decide)) cs

include hc hwhole hmark in
theorem unsigned?_marked (bound : Nat) :
    unsigned? bound (c :: (whole ++ mark :: rest)) = none := by
  simp only [unsigned?, dropPlus_digit hc, radixPrefix?_marked hwhole hmark, value?_marked hmark,
    Option.bind_none, ite_self]

include hwhole hmark in
theorem negated?_marked (bound : Nat) :
    negated? bound ('-' :: c :: (whole ++ mark :: rest)) = none := by
  simp only [negated?, radixPrefix?_marked hwhole hmark, value?_marked hmark, Option.bind_none,
    ite_self]

include hc in
theorem negated?_digit (bound : Nat) (cs : List Char) : negated? bound (c :: cs) = none := by
  unfold negated?
  split
  · rename_i heq
    rw [(List.cons.inj heq).1] at hc
    exact absurd hc (by decide)
  · rfl

include hc hwhole hmark in
theorem int?_marked (rest : List Char) : int? (c :: (whole ++ mark :: rest)) = none ∧
    int? ('-' :: c :: (whole ++ mark :: rest)) = none := by
  simp only [int?, unsigned?_marked hc hwhole hmark, unsigned?_minus, negated?_digit hc,
    negated?_marked hwhole hmark, Option.map_none, Option.none_or, and_self]

end Marked

/-- What begins with a digit, or with a minus sign and a digit, is no name of a
    float. -/
theorem unnamed_digit {c : Char} (hc : c.isDigit = true) (negative : Bool) (cs : List Char) :
    ∀ name ∈ [".inf", ".Inf", ".INF", "-.inf", "-.Inf", "-.INF", ".nan", ".NaN", ".NAN"],
      String.ofList ((if negative then ['-'] else []) ++ c :: cs) ≠ name := by
  intro name hname heq
  have hpoint : name.toList.head? = some '.' ∨ name.toList.take 2 = ['-', '.'] := by
    simp only [List.mem_cons, List.not_mem_nil, or_false] at hname
    rcases hname with rfl | rfl | rfl | rfl | rfl | rfl | rfl | rfl | rfl <;> decide
  have hc' : c ≠ '.' := by
    rintro rfl
    exact absurd hc (by decide)
  have hminus : c ≠ '-' := by
    rintro rfl
    exact absurd hc (by decide)
  rw [← heq, String.toList_ofList] at hpoint
  cases negative with
  | false => simp [hc', hminus] at hpoint
  | true => simp [hc'] at hpoint

/-- A decimal that begins with a digit is a float, as is one behind a minus sign. -/
theorem float?_decimal {c : Char} {cs : List Char} {d : Decimal} {a : Magnitude}
    (hc : c.isDigit = true) (hread : Decimal.parse? (c :: cs) = some d)
    (hvalue : d.toMagnitude? = some a) (negative : Bool) :
    float? ((if negative then ['-'] else []) ++ c :: cs) = some (.finite negative a) := by
  have hname := unnamed_digit hc negative cs
  have hplus : dropPlus ((if negative then ['-'] else []) ++ c :: cs) =
      (if negative then ['-'] else []) ++ c :: cs := by
    cases negative with
    | false => exact dropPlus_digit hc cs
    | true => exact dropPlus_cons (by decide) _
  have hhead : (((if negative then ['-'] else []) ++ c :: cs).head? == some '+') = false := by
    cases negative with
    | false =>
        rw [beq_eq_false_iff_ne]
        intro heq
        rw [Option.some.inj heq] at hc
        exact absurd hc (by decide)
    | true => rfl
  -- It is none of the names for infinities and what is no number, so it is read as a decimal.
  unfold float?
  simp only [hplus, hhead, Bool.and_false, Bool.false_and]
  rw [if_neg Bool.false_ne_true, if_neg, if_neg, if_neg]
  · cases negative with
    | false =>
        have hminus : c ≠ '-' := by
          rintro rfl
          exact absurd hc (by decide)
        simp only [Bool.false_eq_true, if_false, List.nil_append]
        split
        · rename_i heq
          exact absurd (List.cons.inj heq).1 hminus
        · simp [hread, hvalue]
    | true => simp [hread, hvalue]
  · rintro ⟨-, h | h | h⟩ <;> exact hname _ (by simp) h
  · rintro (h | h | h) <;> exact hname _ (by simp) h
  · rintro (h | h | h) <;> exact hname _ (by simp) h

theorem floatText_eq (negative : Bool) (a : Magnitude) :
    floatText (.finite negative a) =
      String.ofList ((if negative then ['-'] else []) ++ layout.magnitudeText a) :=
  rfl

theorem meaning_floatText (negative : Bool) (a : Magnitude) :
    meaning (floatText (.finite negative a)) = .float (.finite negative a) := by
  obtain ⟨whole, mark, rest, htext, hne, hdigits, hmark⟩ :=
    FloatLayout.exists_magnitudeText_mark (show layout.pointZero = true from rfl) a
  obtain ⟨d, hread, hvalue⟩ := layout.exists_parse? a
  -- The point or the exponent makes sure that the text is not read as an integer.
  cases whole with
  | nil => exact absurd rfl hne
  | cons c whole =>
      have hc : c.isDigit = true := hdigits c List.mem_cons_self
      have hwhole : ∀ x ∈ whole, x.isDigit = true := fun x hx =>
        hdigits x (List.mem_cons_of_mem _ hx)
      have hlist : (floatText (.finite negative a)).toList =
          (if negative then ['-'] else []) ++ c :: (whole ++ mark :: rest) := by
        rw [floatText_eq, String.toList_ofList, htext, List.cons_append]
      rw [htext, List.cons_append] at hread
      have hfloat := float?_decimal hc hread hvalue negative
      have hint := int?_marked hc hwhole hmark rest
      have hzero := hasLeadingZero_marked hc hmark whole rest
      cases negative with
      | false =>
          obtain ⟨hnull, hbool⟩ := not_named hlist (.inl hc)
          rw [if_neg Bool.false_ne_true, List.nil_append] at hlist hfloat
          simp only [meaning, hnull, hbool, hlist, hint.1, hzero, hfloat, Bool.false_eq_true,
            if_false]
      | true =>
          rw [if_pos rfl, List.singleton_append] at hlist hfloat
          obtain ⟨hnull, hbool⟩ := not_named hlist (.inr rfl)
          rw [← hasLeadingZero_minus (signFirst_cons hc)] at hzero
          simp only [meaning, hnull, hbool, hlist, hint.2, hzero, hfloat, Bool.false_eq_true,
            if_false]

/-- What has another meaning than null is not left out and does not name null. -/
theorem not_null_of_meaning {s : String} (h : meaning s ≠ .null) :
    (s.isEmpty || isNullName s) = false := by
  rw [← Bool.not_eq_true]
  intro hnull
  exact h (by rw [meaning]; exact if_pos hnull)

end Yaml

end SimStudio
