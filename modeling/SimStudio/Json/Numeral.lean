import SimStudio.Json.Written
import SimStudio.Number.Decimal

/-!
# The Value of a JSON Number

What a number in a JSON text stands for. Without a fraction and an exponent it
is an integer, if it fits into 64 bits; a negative zero does not, since an
integer cannot hold it. Every other number is a float.

A float is not the nearest one to its decimal. The digits are gathered in a
64-bit significand; digits that do not fit any more are dropped, and one before
the point raises the power of ten instead. The significand is rounded to a
float, and that is multiplied or divided by the power of ten, with another
rounding. Powers below `10 ^ -308` are reached in steps. So `1e23` may come out
one place off, but every integer below `2 ^ 53` with up to 22 places comes out
right, both operands being exact.

## Main definitions

* `Significand`: Digits gathered in 64 bits, with a power of ten.
* `Significand.toMagnitude?`: The float that they lead to.
* `Json.Numeral.value?`: The number that a numeral stands for.
-/

namespace SimStudio

/-- Digits gathered in 64 bits, with the power of ten of the last of them. -/
structure Significand where
  digits : Nat
  exponent : Int
  deriving DecidableEq, Inhabited

namespace Significand

/-- The significand that one more digit makes, if it fits into 64 bits. -/
def extend? (n : Nat) (c : Char) : Option Nat :=
  let next := n * 10 + (Digits.digit? c).getD 0
  if next < 2 ^ 64 then some next else none

/-- Gather the digits before the point. From the first that does not fit, each
    raises the power of ten. -/
def addWhole (n : Nat) : List Char → Significand
  | [] => ⟨n, 0⟩
  | c :: cs =>
      match extend? n c with
      | some n => addWhole n cs
      | none => ⟨n, (c :: cs).length⟩

/-- Gather the digits behind the point, up to the first that does not fit. -/
def addFraction (s : Significand) : List Char → Significand
  | [] => s
  | c :: cs =>
      match extend? s.digits c with
      | some n => addFraction ⟨n, s.exponent - 1⟩ cs
      | none => s

/-- The nearest float to a power of ten up to `10 ^ 308`. -/
def tenTo (n : Nat) : Magnitude := (Magnitude.ofNat? (10 ^ n)).getD .zero

/-- Multiply or divide a float by a power of ten. Below `10 ^ -308` that takes
    several steps, of which fuel limits the number. -/
def scale? : (fuel : Nat) → Magnitude → Int → Option Magnitude
  | 0, a, _ => some a
  | fuel + 1, a, exponent =>
      if exponent.natAbs ≤ 308 then
        if 0 ≤ exponent then a.mul? (tenTo exponent.natAbs) else a.div? (tenTo exponent.natAbs)
      else if a.isZero then some a
      else if 0 ≤ exponent then none
      else (a.div? (tenTo 308)).bind fun a => scale? fuel a (exponent + 308)

/-- The float that a significand leads to, unless it is too large. A float of
    64 bits of digits is zero after three steps. -/
def toMagnitude? (s : Significand) : Option Magnitude :=
  (Magnitude.ofNat? s.digits).bind fun a => scale? 4 a s.exponent

end Significand

namespace Json

namespace Numeral

/-- The greatest integer of 32 bits with a sign; greater exponents count as
    unlimited. -/
def exponentLimit : Int := 2 ^ 31 - 1

/-- The float of a numeral, unless it is too large. -/
def float? (n : Numeral) : Option JsonNumber :=
  let s := (Significand.addWhole 0 n.whole).addFraction n.fraction
  let shift : Int := Digits.decimalValue n.exponent
  if exponentLimit < shift then
    if s.digits ≠ 0 ∧ !n.exponentNegative then none else some (.float n.negative .zero)
  else
    let exponent := if n.exponentNegative then s.exponent - shift else s.exponent + shift
    let clamped := max (-(exponentLimit + 1)) (min exponentLimit exponent)
    (Significand.toMagnitude? ⟨s.digits, clamped⟩).map (.float n.negative)

/-- The number that a numeral stands for, unless it is too large. -/
def value? (n : Numeral) : Option JsonNumber :=
  if n.fraction.isEmpty ∧ n.exponent.isEmpty then
    let i : Int := Digits.decimalValue n.whole
    match JsonNumber.ofInt? (if n.negative then -i else i) with
    | some v => if n.negative ∧ i = 0 then float? n else some v
    | none => float? n
  else float? n

end Numeral

end Json

end SimStudio
