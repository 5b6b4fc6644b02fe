import SimStudio.Proofs.Configuration.Lines
import SimStudio.Proofs.Text.Unquoting
import SimStudio.Proofs.Yaml.Meaning

/-!
# Keys with and without Quotes

A key is written without quotes only where nothing else can be meant. It is an identifier
then, so none of the characters that mark something in YAML stands in it, and it begins
neither as a number does nor with a point. What is left are the names of null and of the
truth values, and those are put in quotes, in whatever case they are written.

YAML does not say itself what a text without quotes stands for. It gives a core schema,
from which readers differ only a little: `CoreForm` are the forms of that schema, and
`Yaml.meaning` are those of the reader of project files. A bare key has none of the
former and is a text for the latter.

Since a key in quotes begins with a quote, and an identifier does not, a key is told from
its written form, and so no two keys are written alike.

## Main definitions

* `Yaml.indicators`: The characters that mark something in YAML.
* `Yaml.CoreNumber`, `Yaml.CoreForm`: What is no text in the core schema.
* `IsBareKey`: A key that stands for itself without quotes.

## Theorems

* `Yaml.CoreNumber.exists_cons`: How the numbers of the core schema begin.
* `Yaml.meaning_eq_text`: What begins as an identifier and names nothing is a text.
* `isBareKey`: Keys that are written without quotes are such keys.
* `quote_and_keyText_inverted`: Texts in quotes and keys are taken back.
-/

namespace SimStudio

namespace Yaml

/-- The characters that mark something in YAML. -/
def indicators : List Char :=
  ['-', '?', ':', ',', '[', ']', '\x7b', '\x7d', '#', '&', '*', '!', '|', '>', '\'', '"', '%',
    '@', '\x60']

/-- What can stand before a number. -/
def signs : List (List Char) := [[], ['+'], ['-']]

/-- A run of characters of a class, and not an empty one. -/
def IsRun (p : Char → Bool) (cs : List Char) : Prop := cs ≠ [] ∧ ∀ c ∈ cs, p c = true

/-- The power of ten behind a number, which may be missing. -/
def IsExponent (cs : List Char) : Prop :=
  cs = [] ∨ ∃ mark sign ds, (mark = 'e' ∨ mark = 'E') ∧ sign ∈ signs ∧ IsRun Char.isDigit ds ∧
    cs = mark :: (sign ++ ds)

/-- The numbers of the core schema. -/
inductive CoreNumber : List Char → Prop
  | decimal {sign ds : List Char} (hsign : sign ∈ signs) (hds : IsRun Char.isDigit ds) :
      CoreNumber (sign ++ ds)
  | octal {ds : List Char} (hds : IsRun (fun c => '0' ≤ c && c ≤ '7') ds) :
      CoreNumber ('0' :: 'o' :: ds)
  | hexadecimal {ds : List Char}
      (hds : IsRun (fun c => c.isDigit || ('a' ≤ c && c ≤ 'f') || ('A' ≤ c && c ≤ 'F')) ds) :
      CoreNumber ('0' :: 'x' :: ds)
  /-- Digits behind a point only. -/
  | fraction {sign ds power : List Char} (hsign : sign ∈ signs) (hds : IsRun Char.isDigit ds)
      (hpower : IsExponent power) : CoreNumber (sign ++ '.' :: (ds ++ power))
  | float {sign ds point power : List Char} (hsign : sign ∈ signs) (hds : IsRun Char.isDigit ds)
      (hpoint : point = [] ∨ ∃ fs, point = '.' :: fs ∧ ∀ c ∈ fs, c.isDigit = true)
      (hpower : IsExponent power) : CoreNumber (sign ++ (ds ++ (point ++ power)))
  | infinity {sign : List Char} {name : String} (hsign : sign ∈ signs)
      (hname : name ∈ [".inf", ".Inf", ".INF"]) : CoreNumber (sign ++ name.toList)
  | notANumber {name : String} (hname : name ∈ [".nan", ".NaN", ".NAN"]) :
      CoreNumber name.toList

/-- The names of null and of the truth values in the core schema. -/
def coreNames : List String :=
  ["", "~", "null", "Null", "NULL", "true", "True", "TRUE", "false", "False", "FALSE"]

/-- What is no text in the core schema. -/
inductive CoreForm (s : String) : Prop
  | name (h : s ∈ coreNames)
  | number (h : CoreNumber s.toList)

-- ## Numbers

/-- Whether a number can begin with a character: a sign, a point, or a digit. -/
def beginsNumber (c : Char) : Bool := c == '+' || c == '-' || c == '.' || c.isDigit

/-- How the numbers of the core schema begin. -/
theorem CoreNumber.exists_cons {cs : List Char} (h : CoreNumber cs) :
    ∃ c rest, cs = c :: rest ∧ beginsNumber c = true := by
  have hrun : ∀ {ds : List Char} (rest : List Char), IsRun Char.isDigit ds →
      ∃ c more, ds ++ rest = c :: more ∧ beginsNumber c = true := by
    intro ds rest hds
    cases ds with
    | nil => exact absurd rfl hds.1
    | cons d ds =>
        refine ⟨d, ds ++ rest, rfl, ?_⟩
        rw [beginsNumber, hds.2 d List.mem_cons_self, Bool.or_true]
  -- A sign is as good a beginning as what follows it.
  have hsigned : ∀ {sign rest : List Char}, sign ∈ signs →
      (∃ c more, rest = c :: more ∧ beginsNumber c = true) →
      ∃ c more, sign ++ rest = c :: more ∧ beginsNumber c = true := by
    intro sign rest hsign hrest
    have hsigns : sign = [] ∨ sign = ['+'] ∨ sign = ['-'] := by simpa [signs] using hsign
    rcases hsigns with rfl | rfl | rfl
    · exact hrest
    · exact ⟨'+', rest, rfl, rfl⟩
    · exact ⟨'-', rest, rfl, rfl⟩
  have hpoint : ∀ {name : String},
      name ∈ [".inf", ".Inf", ".INF"] ++ [".nan", ".NaN", ".NAN"] →
      ∃ c more, name.toList = c :: more ∧ beginsNumber c = true := by
    intro name hname
    simp only [List.mem_append, List.mem_cons, List.not_mem_nil, or_false] at hname
    rcases hname with (rfl | rfl | rfl) | rfl | rfl | rfl <;> exact ⟨'.', _, rfl, rfl⟩
  cases h with
  | decimal hsign hds =>
      refine hsigned hsign ?_
      have hbegins := hrun [] hds
      rwa [List.append_nil] at hbegins
  | octal hds => exact ⟨'0', _, rfl, rfl⟩
  | hexadecimal hds => exact ⟨'0', _, rfl, rfl⟩
  | fraction hsign hds hpower => exact hsigned hsign ⟨'.', _, rfl, rfl⟩
  | float hsign hds hpoint' hpower => exact hsigned hsign (hrun _ hds)
  | infinity hsign hname => exact hsigned hsign (hpoint (List.mem_append_left _ hname))
  | notANumber hname => exact hpoint (List.mem_append_right _ hname)

theorem readOn_eq_none {c : Char} (hc : c.isDigit = false) (n : Nat) (cs : List Char) :
    Digits.readOn 10 n (c :: cs) = none := by
  unfold Digits.readOn Digits.digit?
  rw [hc]
  split
  · rename_i d hd
    refine if_neg ?_
    simp only [Bool.false_eq_true, if_false] at hd
    split at hd
    · have hvalue := Option.some.inj hd
      omega
    · split at hd
      · have hvalue := Option.some.inj hd
        omega
      · cases hd
  · rfl

theorem beginsNumber_eq_false {c : Char} (h : beginsNumber c = false) :
    c ≠ '+' ∧ c ≠ '-' ∧ c ≠ '.' ∧ c.isDigit = false := by
  simp only [beginsNumber, Bool.or_eq_false_iff, beq_eq_false_iff_ne] at h
  exact ⟨h.1.1.1, h.1.1.2, h.1.2, h.2⟩

section NoNumber

variable {c : Char} (hc : beginsNumber c = false) (cs : List Char)
include hc

/-- What does not begin as a number is no integer. -/
theorem int?_eq_none : int? (c :: cs) = none := by
  rcases beginsNumber_eq_false hc with ⟨hplus, hminus, -, hdigit⟩
  have hvalue : Digits.value? 10 (c :: cs) = none := readOn_eq_none hdigit 0 cs
  have hzero : c ≠ '0' := by
    rintro rfl
    exact absurd hdigit (by decide)
  have hradix : radixPrefix? (c :: cs) = none := by
    unfold radixPrefix?
    split
    · rename_i heq
      exact absurd (List.cons.inj heq).1 hzero
    · rename_i heq
      exact absurd (List.cons.inj heq).1 hzero
    · rename_i heq
      exact absurd (List.cons.inj heq).1 hzero
    · rfl
  have hunsigned : ∀ bound, unsigned? bound (c :: cs) = none := by
    intro bound
    simp [unsigned?, dropPlus_cons hplus, hradix, hvalue]
  have hnegated : ∀ bound, negated? bound (c :: cs) = none := by
    intro bound
    unfold negated?
    split
    · rename_i heq
      exact absurd (List.cons.inj heq).1 hminus
    · rfl
  simp [int?, hunsigned, hnegated]

/-- Nor is it a decimal. -/
theorem parse?_eq_none : Decimal.parse? (c :: cs) = none := by
  rcases beginsNumber_eq_false hc with ⟨-, -, hpoint, hdigit⟩
  have hfraction : Decimal.fraction (c :: cs) = ([], c :: cs) := by
    unfold Decimal.fraction
    split
    · rename_i heq
      exact absurd (List.cons.inj heq).1 hpoint
    · rfl
  unfold Decimal.parse?
  simp [hdigit, hfraction]

/-- Nor is it a float, by digits or by name. -/
theorem float?_eq_none : float? (c :: cs) = none := by
  rcases beginsNumber_eq_false hc with ⟨hplus, hminus, hpoint, -⟩
  have hname : ∀ name ∈ [".inf", ".Inf", ".INF", "-.inf", "-.Inf", "-.INF", ".nan", ".NaN",
      ".NAN"], String.ofList (c :: cs) ≠ name := by
    rintro name hmem heq
    have hhead : name.toList.head? = some c := by
      rw [← heq, String.toList_ofList]
      rfl
    have hfirst : name.toList.head? = some '.' ∨ name.toList.head? = some '-' := by
      simp only [List.mem_cons, List.not_mem_nil, or_false] at hmem
      rcases hmem with rfl | rfl | rfl | rfl | rfl | rfl | rfl | rfl | rfl <;> decide
    rw [hhead, Option.some.injEq, Option.some.injEq] at hfirst
    exact hfirst.elim hpoint hminus
  unfold float?
  simp only [dropPlus_cons hplus]
  rw [if_neg, if_neg, if_neg, if_neg]
  · split
    · rename_i heq
      exact absurd (List.cons.inj heq).1 hminus
    · simp [parse?_eq_none hc]
  · rintro ⟨-, h | h | h⟩ <;> exact hname _ (by simp) h
  · rintro (h | h | h) <;> exact hname _ (by simp) h
  · rintro (h | h | h) <;> exact hname _ (by simp) h
  · simp [hplus]

end NoNumber

/-- What begins as no number and names nothing is a text. -/
theorem meaning_eq_text {s : String} {c : Char} {cs : List Char} (hs : s.toList = c :: cs)
    (hc : beginsNumber c = false) (hname : s ∉ coreNames) : meaning s = .text := by
  simp only [coreNames, List.mem_cons, List.not_mem_nil, or_false, not_or] at hname
  have hnull : (s.isEmpty || isNullName s) = false := by
    simp [isNullName, hname]
  have hbool : bool? s = none := by
    simp [bool?, hname]
  simp only [meaning, hnull, hbool, hs, int?_eq_none hc cs, float?_eq_none hc cs,
    Bool.false_eq_true, if_false, ite_self]

end Yaml

-- ## Keys

/-- A key that stands for itself without quotes: an identifier, which names nothing in any
    case of its letters. So it holds nothing that has a meaning of its own, and as a whole
    it has no other meaning than itself. -/
structure IsBareKey (key : String) : Prop where
  identifier : ∃ first rest, key.toList = first :: rest ∧
    (first.isAlpha = true ∨ first = '_') ∧ ∀ c ∈ rest, c.isAlphanum = true ∨ c = '_'
  unnamed : key.toList.map Char.toLower ∉ ["null".toList, "true".toList, "false".toList]
  unmarked : ∀ c ∈ key.toList, c ∉ Yaml.indicators
  noForm : ¬Yaml.CoreForm key
  text : Yaml.meaning key = .text

/-- No number begins as an identifier does. -/
theorem beginsNumber_of_isIdentifierStart {c : Char} (h : isIdentifierStart c = true) :
    Yaml.beginsNumber c = false := by
  have hdigit : c.isDigit = false := by
    rw [← Bool.not_eq_true]
    intro hdigit
    simp only [isIdentifierStart, Bool.or_eq_true, beq_iff_eq] at h
    rcases h with halpha | rfl
    · delta Char.isAlpha Char.isUpper Char.isLower Char.isDigit at halpha hdigit
      simp only [Bool.or_eq_true, Bool.and_eq_true, decide_eq_true_eq, ge_iff_le,
        UInt32.le_iff_toNat_le] at halpha hdigit
      rcases halpha with hcase | hcase <;> simp at hcase hdigit <;> omega
    · exact absurd hdigit (by decide)
  have hne : ∀ d, isIdentifierStart d = false → c ≠ d := by
    rintro d hd rfl
    rw [h] at hd
    cases hd
  simp [Yaml.beginsNumber, hdigit, hne '+' rfl, hne '-' rfl, hne '.' rfl]

/-- A key that is written without quotes stands for itself. -/
theorem isBareKey {key : String} (hkey : isIdentifier key = true)
    (hreserved : isReserved key = false) : IsBareKey key := by
  have hmark : Yaml.indicators.all (fun c => !isIdentifierMark c) = true := by decide
  -- The names of the core schema are no identifiers, or they are reserved.
  have hnames : ∀ name ∈ Yaml.coreNames, (isIdentifier name && !isReserved name) = false := by
    decide
  have hname : key ∉ Yaml.coreNames := by
    intro hmem
    have hfalse := hnames key hmem
    rw [hkey, hreserved] at hfalse
    cases hfalse
  have hidentifier := hkey
  unfold isIdentifier at hidentifier
  cases hcs : key.toList with
  | nil =>
      rw [hcs] at hidentifier
      cases hidentifier
  | cons first rest =>
      rw [hcs, Bool.and_eq_true] at hidentifier
      have hfirst := beginsNumber_of_isIdentifierStart hidentifier.1
      refine ⟨⟨first, rest, hcs, ?_, fun c hc => ?_⟩, ?_, fun c hc hindicator => ?_, ?_,
        Yaml.meaning_eq_text hcs hfirst hname⟩
      · simpa [isIdentifierStart] using hidentifier.1
      · have hc := List.all_eq_true.mp hidentifier.2 c hc
        simp only [isIdentifierStart, Bool.or_eq_true, beq_iff_eq] at hc
        unfold Char.isAlphanum
        rw [Bool.or_eq_true]
        rcases hc with (halpha | hline) | hdigit
        · exact .inl (.inl halpha)
        · exact .inr hline
        · exact .inl (.inr hdigit)
      · unfold isReserved at hreserved
        simpa only [List.mem_cons, List.not_mem_nil, or_false, not_or, Bool.or_eq_false_iff,
          beq_eq_false_iff_ne, and_assoc] using hreserved
      · have hc := isIdentifierMark_of_mem hkey hc
        have hnone := List.all_eq_true.mp hmark c hindicator
        rw [hc] at hnone
        cases hnone
      · intro hform
        cases hform with
        | name hmem => exact hname hmem
        | number hnumber =>
            rcases hnumber.exists_cons with ⟨c, more, heq, hbegins⟩
            rw [hcs] at heq
            rw [← (List.cons.inj heq).1, hfirst] at hbegins
            cases hbegins

theorem keyText_injective : Function.Injective keyText := by
  intro key key' h
  have hcolon : (keyText key).toList ++ [':'] = (keyText key').toList ++ [':'] := by rw [h]
  exact (keyText_unique hcolon).1

/-- Texts in quotes are taken back by the rules for escapes, to the letter and to the end and
    no further. Between the two quotes there is none without a backslash of its own before
    it, and no character that ends a line or is not to stand in a text. Keys are in quotes,
    too, or they stand for themselves, and no two of them are written alike. -/
theorem quote_and_keyText_inverted :
    (∀ s : String, ∃ body, (quote s).toList = '"' :: (body ++ ['"']) ∧
      (∀ before after, body = before ++ '"' :: after → Odd (backslashesAtEnd before)) ∧
      (∀ c ∈ body, c ≠ '\n' ∧ Text.isControl c = false ∧
        c ∉ ['\u2028', '\u2029', '\ufeff']) ∧
      ∀ after, unquote? ((quote s).toList ++ after) = some (s, after)) ∧
    (∀ key : String, keyText key = quote key ∨ keyText key = key ∧ IsBareKey key) ∧
    Function.Injective keyText := by
  refine ⟨fun s => ?_, fun key => ?_, keyText_injective⟩
  · refine ⟨s.toList.flatMap quotedChar, toList_quote s, fun before after => odd_backslashesAtEnd,
      fun c hc => ?_, unquote?_quote s⟩
    rcases List.mem_flatMap.mp hc with ⟨x, -, hx⟩
    have hclean := isClean_of_mem_quotedChar hx
    refine ⟨ne_newline_of_isClean hclean, ?_⟩
    simpa [isClean, isHazard, and_assoc] using hclean
  · unfold keyText
    split
    · rename_i hkey
      rw [Bool.and_eq_true, Bool.not_eq_true'] at hkey
      exact .inr ⟨rfl, isBareKey hkey.1 hkey.2⟩
    · exact .inl rfl

end SimStudio
