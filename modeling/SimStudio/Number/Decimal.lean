import SimStudio.Number.Binary64

/-!
# Decimal Text of Binary64 Numbers

How a binary64 number is written in decimal digits and read back.

The digits are the fewest that lead back to the number. A decimal reads as the
magnitude nearest to it, so the decimals that lead to one magnitude fill an
interval around it, whose ends belong to it exactly if the mantissa is even.
`Magnitude.shortest` looks at grids of one, two, … seventeen digits and takes
the first that has a point in the interval; of two such points it takes the
nearer one. Only the two neighbours of the value on each grid need a look,
since the interval is connected and holds the value. Where both neighbours are
equally near, the formats of this library differ, so that choice is a
parameter.

What a format does with the digits is a `FloatLayout`: which numbers it writes
without an exponent, whether a whole number keeps a point, and whether a
positive exponent has a sign.

## Main definitions

* `Decimal`: A coefficient and a power of ten.
* `Decimal.toMagnitude?`: The nearest magnitude to a decimal.
* `Magnitude.shortest`: The shortest decimal that leads back to a magnitude.
* `FloatLayout`: The decisions of a format.
* `FloatLayout.text`: A number as a format writes it.
* `Decimal.exponent?`, `Decimal.fraction`: The parts of a decimal behind the
  digits before the point.
* `Decimal.parse?`: The decimal that a run of characters stands for.
* `readBinary64?`: The number that a user writes.
-/

namespace SimStudio

/-- The number `coefficient * 10 ^ exponent`. -/
structure Decimal where
  coefficient : Nat
  exponent : Int
  deriving DecidableEq, Inhabited

namespace Decimal

/-- The nearest magnitude to a decimal, unless it is too large. A decimal of
    more than 310 digits before the point is, and one with more than 330 zeros
    behind the point is nearest to zero, whatever its digits; for the rest the
    powers of ten are small enough to compute with. -/
def toMagnitude? (d : Decimal) : Option Magnitude :=
  if d.coefficient = 0 then some .zero
  else
    let order : Int := Digits.count d.coefficient + d.exponent
    if 310 < order then none
    else if order < -330 then some .zero
    else if 0 ≤ d.exponent then
      Magnitude.ofRatio? (d.coefficient * 10 ^ d.exponent.toNat) 1
    else Magnitude.ofRatio? d.coefficient (10 ^ (-d.exponent).toNat)

/-- Move the zeros at the end of the coefficient into the exponent. -/
def trimZeros (coefficient : Nat) (exponent : Int) : Decimal :=
  if h : coefficient ≠ 0 ∧ coefficient % 10 = 0 then
    trimZeros (coefficient / 10) (exponent + 1)
  else ⟨coefficient, exponent⟩
termination_by coefficient
decreasing_by omega

/-- The power of ten behind the digits of a decimal, where nothing stands for
    the power zero. -/
def exponent? : List Char → Option Int
  | [] => some 0
  | mark :: rest =>
      if mark = 'e' ∨ mark = 'E' then
        match rest with
        | '-' :: ds => (Digits.value? 10 ds).map fun n => -Int.ofNat n
        | '+' :: ds => (Digits.value? 10 ds).map Int.ofNat
        | ds => (Digits.value? 10 ds).map Int.ofNat
      else none

/-- The digits behind a point, if there is one, and what follows them. -/
def fraction : List Char → List Char × List Char
  | '.' :: rest => (rest.takeWhile Char.isDigit, rest.dropWhile Char.isDigit)
  | rest => ([], rest)

/-- Read `digits[.digits][e[sign]digits]`, with a digit on at least one side of
    the point. There is no sign in front. -/
def parse? (cs : List Char) : Option Decimal :=
  let whole := cs.takeWhile Char.isDigit
  let (fraction, rest) := fraction (cs.dropWhile Char.isDigit)
  if whole.isEmpty && fraction.isEmpty then none
  else
    (exponent? rest).map fun n =>
      ⟨Digits.decimalValue (whole ++ fraction), n - fraction.length⟩

end Decimal

/-- Read a number as users write it: a decimal or a name of one that is not
    finite, perhaps behind a sign. A decimal that is too large is infinite. -/
def readBinary64? (text : String) : Option Binary64 :=
  let unsigned (negative : Bool) (cs : List Char) : Option Binary64 :=
    let name := String.ofList (cs.map Char.toLower)
    if name = "inf" ∨ name = "infinity" then some (.infinite negative)
    else if name = "nan" then some .nan
    else (Decimal.parse? cs).map fun d => Binary64.signed negative d.toMagnitude?
  match text.toList with
  | '-' :: cs => unsigned true cs
  | '+' :: cs => unsigned false cs
  | cs => unsigned false cs

/-- Which of two equally near decimals is taken. -/
inductive Tie
  /-- The one whose last digit is even. -/
  | even
  /-- The greater one. -/
  | up
  deriving DecidableEq

namespace Magnitude

/-- The exponent `e` with `10 ^ e ≤ num / den < 10 ^ (e + 1)`. -/
def decimalOrder (num den : Nat) : Int :=
  if den ≤ num then (Digits.count (num / den) : Int) - 1
  else -(Digits.count ((den - 1) / num) : Int)

/-- The point that the grid of `digits` digits has in the interval of decimals
    leading to `a`, with the grid's power of ten. The interval reaches half the
    distance to the neighbouring magnitudes, of which the lower one is only
    half as far away where the mantissa is the least of its exponent. -/
def gridPoint? (tie : Tie) (a : Magnitude) (digits : Nat) : Option Decimal :=
  let (num, den) := a.toRatio
  let shift : Int := digits - 1 - decimalOrder num den
  let step := 2 ^ a.exponent.toNat * 10 ^ shift.toNat
  let den := den * 10 ^ (-shift).toNat
  let below := a.mantissa * step / den
  let excess := a.mantissa * step % den
  let lowGap := if a.mantissa = 2 ^ 52 ∧ -1074 < a.exponent then step else 2 * step
  let closed := a.mantissa % 2 = 0
  let within (distance gap : Nat) : Bool :=
    4 * distance < gap || (closed && 4 * distance == gap)
  let low := within excess lowGap
  let high := within (den - excess) (2 * step)
  let nearerLow : Bool :=
    2 * excess < den ||
      (2 * excess == den && (match tie with | .even => below % 2 == 0 | .up => false))
  if low && (nearerLow || !high) then some ⟨below, -shift⟩
  else if high then some ⟨below + 1, -shift⟩
  else none

/-- The shortest decimal that leads back to the magnitude, and of those the
    nearest. Seventeen digits are always enough. -/
def shortest (tie : Tie) (a : Magnitude) : Decimal :=
  if a.isZero then ⟨0, 0⟩
  else
    match (List.range' 1 17).findSome? (gridPoint? tie a) with
    | some d => Decimal.trimZeros d.coefficient d.exponent
    | none => ⟨0, 0⟩

end Magnitude

/-- What a format does with the digits of a number. -/
structure FloatLayout where
  /-- Which of two equally near shortest decimals is written. -/
  tie : Tie
  /-- The least and the greatest order of magnitude written without an
      exponent; without bounds, no number has one. -/
  positional : Option (Int × Int)
  /-- Whether a whole number written without an exponent ends in `.0`. -/
  pointZero : Bool
  /-- Whether an exponent that is not negative has a plus sign. -/
  exponentPlus : Bool
  deriving DecidableEq

namespace FloatLayout

/-- A decimal without an exponent. -/
def positionalText (layout : FloatLayout) (d : Decimal) : List Char :=
  let ds := Digits.text d.coefficient
  if 0 ≤ d.exponent then
    ds ++ List.replicate d.exponent.toNat '0' ++ (if layout.pointZero then ['.', '0'] else [])
  else
    let places := (-d.exponent).toNat
    if places < ds.length then
      ds.take (ds.length - places) ++ '.' :: ds.drop (ds.length - places)
    else '0' :: '.' :: (List.replicate (places - ds.length) '0' ++ ds)

/-- A decimal with one digit before the point and an exponent. -/
def scientificText (layout : FloatLayout) (d : Decimal) : List Char :=
  let ds := Digits.text d.coefficient
  let order : Int := d.exponent + ds.length - 1
  let sign := if order < 0 then ['-'] else if layout.exponentPlus then ['+'] else []
  ds.take 1 ++ (if 1 < ds.length then '.' :: ds.drop 1 else []) ++
    'e' :: (sign ++ Digits.text order.natAbs)

/-- A magnitude in the layout. -/
def magnitudeText (layout : FloatLayout) (a : Magnitude) : List Char :=
  let d := a.shortest layout.tie
  let order : Int := d.exponent + Digits.count d.coefficient - 1
  match layout.positional with
  | none => layout.positionalText d
  | some (least, greatest) =>
      if least ≤ order ∧ order ≤ greatest then layout.positionalText d
      else layout.scientificText d

/-- A signed magnitude in the layout; zero keeps its sign. -/
def signedText (layout : FloatLayout) (negative : Bool) (a : Magnitude) : String :=
  String.ofList ((if negative then ['-'] else []) ++ layout.magnitudeText a)

/-- A number in the layout. -/
def text (layout : FloatLayout) : Binary64 → String
  | .finite negative a => layout.signedText negative a
  | .infinite false => "inf"
  | .infinite true => "-inf"
  | .nan => "NaN"

end FloatLayout

end SimStudio
