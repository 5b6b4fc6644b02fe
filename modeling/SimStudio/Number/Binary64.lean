import SimStudio.Number.Digits

/-!
# Binary64 Numbers

The floating point numbers that model parameters, field defaults and action
delays are made of.

The finite non-negative values of the format are a finite chain
`0 < 2⁻¹⁰⁷⁴ < …`, and a `Magnitude` is a place in it. So every magnitude is a
value of the format and no value has two magnitudes, which a pair of mantissa
and exponent would not give. The two are read off the place: the lowest 52
bits of the place continue the mantissa, the bits above them count exponents.

All arithmetic is exact arithmetic on natural numbers followed by one
rounding, `Magnitude.ofRatio?`, which takes the nearest magnitude to a
quotient and the one with the even mantissa of two that are equally near.
Nothing is rounded twice, and nothing depends on the machine's own floats.

## Main definitions

* `Magnitude`: A finite non-negative value, by its place in the chain.
* `Magnitude.mantissa`, `Magnitude.exponent`: The value is
  `mantissa * 2 ^ exponent`.
* `Magnitude.ofRatio?`: The nearest magnitude to a quotient, if none is
  exceeded.
* `Magnitude.mul?`, `Magnitude.div?`: Rounded product and quotient.
* `Binary64`: A signed magnitude, an infinity, or not a number.

## Theorems

* `Magnitude.ext`: A magnitude is its place.
-/

namespace SimStudio

/-- The nearest integer to `num / den`; of two equally near ones the even. -/
def roundEven (num den : Nat) : Nat :=
  let q := num / den
  let r := num % den
  if 2 * r < den then q
  else if den < 2 * r then q + 1
  else if q % 2 = 0 then q
  else q + 1

/-- A finite non-negative value of the format, by its place in their order. -/
structure Magnitude where
  place : Nat
  place_lt : place < 2047 * 2 ^ 52 := by decide

namespace Magnitude

theorem ext {a b : Magnitude} (h : a.place = b.place) : a = b := by
  cases a
  cases b
  cases h
  rfl

instance : DecidableEq Magnitude := fun a b =>
  decidable_of_iff (a.place = b.place) ⟨ext, fun h => h ▸ rfl⟩

instance : Inhabited Magnitude := ⟨⟨0, by decide⟩⟩

/-- The magnitude of zero. -/
def zero : Magnitude := ⟨0, by decide⟩

/-- Whether the magnitude is that of zero. -/
def isZero (a : Magnitude) : Bool := a.place == 0

/-- The integer of the representation `mantissa * 2 ^ exponent`: below `2 ^ 53`,
    and at least `2 ^ 52` unless the exponent is the least one. -/
def mantissa (a : Magnitude) : Nat :=
  if a.place < 2 ^ 52 then a.place else 2 ^ 52 + a.place % 2 ^ 52

/-- The power of two of the representation `mantissa * 2 ^ exponent`. -/
def exponent (a : Magnitude) : Int :=
  if a.place < 2 ^ 52 then -1074 else (a.place / 2 ^ 52 : Nat) - 1075

/-- The value as a quotient of natural numbers. -/
def toRatio (a : Magnitude) : Nat × Nat :=
  if 0 ≤ a.exponent then (a.mantissa * 2 ^ a.exponent.toNat, 1)
  else (a.mantissa, 2 ^ (-a.exponent).toNat)

/-- The magnitude at a place, unless the place lies past the greatest one. -/
def ofPlace? (place : Nat) : Option Magnitude :=
  if h : place < 2047 * 2 ^ 52 then some ⟨place, h⟩ else none

/-- The exponent `e` with `2 ^ e ≤ num / den < 2 ^ (e + 1)`. -/
def binaryOrder (num den : Nat) : Int :=
  let guess : Int := (Nat.log2 num : Int) - (Nat.log2 den : Int)
  let reached : Bool :=
    if 0 ≤ guess then den * 2 ^ guess.toNat ≤ num else den ≤ num * 2 ^ (-guess).toNat
  if reached then guess else guess - 1

/-- The nearest magnitude to `num / den`, of two equally near ones that with
    the even mantissa; nothing if the quotient rounds past the greatest one.
    The mantissa is the quotient rounded in units of the exponent's power of
    two; one that rounds up to `2 ^ 53` lands on the next place by itself. -/
def ofRatio? (num den : Nat) : Option Magnitude :=
  if num = 0 then some zero
  else
    let exponent : Int := max (binaryOrder num den - 52) (-1074)
    let rounded :=
      if 0 ≤ exponent then roundEven num (den * 2 ^ exponent.toNat)
      else roundEven (num * 2 ^ (-exponent).toNat) den
    ofPlace? ((exponent + 1074).toNat * 2 ^ 52 + rounded)

/-- The nearest magnitude to a natural number. -/
def ofNat? (n : Nat) : Option Magnitude := ofRatio? n 1

/-- The rounded product, unless it is too large. -/
def mul? (a b : Magnitude) : Option Magnitude :=
  let (an, ad) := a.toRatio
  let (bn, bd) := b.toRatio
  ofRatio? (an * bn) (ad * bd)

/-- The rounded quotient, unless it is too large. -/
def div? (a b : Magnitude) : Option Magnitude :=
  let (an, ad) := a.toRatio
  let (bn, bd) := b.toRatio
  ofRatio? (an * bd) (ad * bn)

end Magnitude

/-- A number of the binary64 format. Zero has two signs; the values that are
    no numbers are not told apart. -/
inductive Binary64
  | finite (negative : Bool) (magnitude : Magnitude)
  | infinite (negative : Bool)
  | nan
  deriving DecidableEq, Inhabited

namespace Binary64

/-- Positive zero. -/
def zero : Binary64 := .finite false .zero

/-- The value of a sign and a magnitude, where an absent magnitude is one that
    is too large for the format. -/
def signed (negative : Bool) : Option Magnitude → Binary64
  | some a => .finite negative a
  | none => .infinite negative

/-- The nearest value to an integer. -/
def ofInt (i : Int) : Binary64 := signed (i < 0) (Magnitude.ofNat? i.natAbs)

/-- Whether the value is a finite number. -/
def isFinite : Binary64 → Bool
  | .finite .. => true
  | _ => false

/-- Whether the value lies below zero; neither zero does. -/
def isNegative : Binary64 → Bool
  | .finite negative a => negative && !a.isZero
  | .infinite negative => negative
  | .nan => false

end Binary64

end SimStudio
