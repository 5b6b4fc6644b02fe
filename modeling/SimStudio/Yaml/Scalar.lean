import SimStudio.Number.Decimal

/-!
# What Plain Scalars Say

A scalar without quotes may stand for null, a truth value or a number; if it
stands for none of these it is text. The forms are those of YAML 1.2 with
binary integers added: three prefixes for radices, no leading zeros in decimal
integers, and a point before the names of the values that are no finite
numbers.

The same rules serve three purposes: reading a value whose kind is not known
beforehand, reading a number where one is expected, and deciding which texts
need quotes when they are written.

## Main definitions

* `Yaml.Meaning`: What a plain scalar stands for.
* `Yaml.meaning`: The meaning of a plain scalar.
* `Yaml.unsigned?`, `Yaml.signed?`, `Yaml.float?`: The expected numbers.
* `Yaml.hasLeadingZero`: Digits that are text because of a zero before them.
-/

namespace SimStudio

namespace Yaml

/-- What a plain scalar stands for. -/
inductive Meaning
  | null
  | bool (b : Bool)
  | int (i : Int)
  | float (x : Binary64)
  | text
  deriving DecidableEq, Inhabited

/-- Whether the characters begin with a sign. -/
def signFirst (cs : List Char) : Bool := cs.head? == some '+' || cs.head? == some '-'

/-- The characters behind a plus sign, if there is one. -/
def dropPlus (cs : List Char) : List Char :=
  match cs with
  | '+' :: rest => rest
  | _ => cs

/-- Two or more digits of which the first is a zero, perhaps behind a sign.
    They are text, not a number. -/
def hasLeadingZero (cs : List Char) : Bool :=
  match (if signFirst cs then cs.drop 1 else cs) with
  | '0' :: d :: ds => (d :: ds).all Char.isDigit
  | _ => false

/-- The radix that the characters announce, with the digits behind. -/
def radixPrefix? (cs : List Char) : Option (Nat × List Char) :=
  match cs with
  | '0' :: 'x' :: ds => some (16, ds)
  | '0' :: 'o' :: ds => some (8, ds)
  | '0' :: 'b' :: ds => some (2, ds)
  | _ => none

/-- A number below a bound. -/
def below? (bound : Nat) (n : Nat) : Option Nat := if n < bound then some n else none

/-- A natural number below a bound. -/
def unsigned? (bound : Nat) (cs : List Char) : Option Nat :=
  let ds := dropPlus cs
  let decimal : Option Nat :=
    if signFirst ds || hasLeadingZero cs then none
    else (Digits.value? 10 ds).bind (below? bound)
  match radixPrefix? ds with
  | some (radix, ds) => ((Digits.value? radix ds).bind (below? bound)).or decimal
  | none => decimal

/-- The negative of a natural number up to a bound, behind a minus sign. -/
def negated? (bound : Nat) (cs : List Char) : Option Int :=
  match cs with
  | '-' :: ds =>
      let negate (n : Nat) : Option Int := if n ≤ bound then some (-(n : Int)) else none
      let decimal : Option Int :=
        if hasLeadingZero cs then none else (Digits.value? 10 ds).bind negate
      match radixPrefix? ds with
      | some (radix, ds) => ((Digits.value? radix ds).bind negate).or decimal
      | none => decimal
  | _ => none

/-- An integer of 64 bits with a sign. -/
def signed? (cs : List Char) : Option Int :=
  match cs with
  | '-' :: _ => negated? (2 ^ 63) cs
  | _ => (unsigned? (2 ^ 63) cs).map Int.ofNat

/-- A binary64 number. Infinities and the value that is no number have names
    with a point; a decimal that is too large is not a number. -/
def float? (cs : List Char) : Option Binary64 :=
  let unsigned := dropPlus cs
  let name := String.ofList unsigned
  if signFirst cs && cs.head? == some '+' && signFirst unsigned then none
  else if name = ".inf" ∨ name = ".Inf" ∨ name = ".INF" then some (.infinite false)
  else if name = "-.inf" ∨ name = "-.Inf" ∨ name = "-.INF" then some (.infinite true)
  else if cs.head? ≠ some '+' ∧ (name = ".nan" ∨ name = ".NaN" ∨ name = ".NAN") then some .nan
  else
    let (negative, digits) := match unsigned with
      | '-' :: ds => (true, ds)
      | ds => (false, ds)
    do
      let d ← Decimal.parse? digits
      let a ← d.toMagnitude?
      pure (.finite negative a)

/-- Whether a text names null. -/
def isNullName (s : String) : Bool := s == "null" || s == "Null" || s == "NULL" || s == "~"

/-- The truth value that a text names. -/
def bool? (s : String) : Option Bool :=
  if s = "true" ∨ s = "True" ∨ s = "TRUE" then some true
  else if s = "false" ∨ s = "False" ∨ s = "FALSE" then some false
  else none

/-- The integer that a scalar stands for, of 128 bits at most. -/
def int? (cs : List Char) : Option Int :=
  ((unsigned? (2 ^ 64) cs).map Int.ofNat).or
    ((negated? (2 ^ 63) cs).or
      (((unsigned? (2 ^ 128) cs).map Int.ofNat).or (negated? (2 ^ 127) cs)))

/-- The meaning of a plain scalar. -/
def meaning (s : String) : Meaning :=
  let cs := s.toList
  if s.isEmpty || isNullName s then .null
  else
    match bool? s with
    | some b => .bool b
    | none =>
        match int? cs with
        | some i => .int i
        | none =>
            if hasLeadingZero cs then .text
            else
              match float? cs with
              | some x => .float x
              | none => .text

end Yaml

end SimStudio
