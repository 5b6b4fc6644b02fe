/-!
# Digit Strings

Natural numbers as runs of digits in some radix. A run is read as a whole:
it must be non-empty and every character in it must be a digit of the radix.

## Main definitions

* `Digits.value?`: The number a run of digits stands for.
* `Digits.natural?`, `Digits.integer?`: The number that a user writes.
* `Digits.text`: The decimal digits of a number.
* `Digits.count`: How many of them there are.
-/

namespace SimStudio

/-- Powers of natural numbers are the core library's own, whatever else is
    imported. -/
@[default_instance 20000]
instance (priority := high) powNat : Pow Nat Nat := instPowNat

/-- So are those of integers. -/
@[default_instance 15000]
instance (priority := high) powInt : Pow Int Nat := instPowNat

namespace Digits

/-- The value of a digit: ten Arabic numerals, then letters of either case. -/
def digit? (c : Char) : Option Nat :=
  if c.isDigit then some (c.toNat - '0'.toNat)
  else if 'a' ≤ c ∧ c ≤ 'z' then some (c.toNat - 'a'.toNat + 10)
  else if 'A' ≤ c ∧ c ≤ 'Z' then some (c.toNat - 'A'.toNat + 10)
  else none

/-- Read on from the number `n`, digit by digit. -/
def readOn (radix : Nat) : Nat → List Char → Option Nat
  | n, [] => some n
  | n, c :: cs =>
      match digit? c with
      | some d => if d < radix then readOn radix (n * radix + d) cs else none
      | none => none

/-- The number that a non-empty run of digits stands for. -/
def value? (radix : Nat) (cs : List Char) : Option Nat :=
  if cs.isEmpty then none else readOn radix 0 cs

/-- A natural number below a bound, perhaps behind a plus sign. Zeros may stand
    in front. -/
def natural? (bound : Nat) (cs : List Char) : Option Nat :=
  let ds := match cs with
    | '+' :: ds => ds
    | ds => ds
  (value? 10 ds).bind fun n => if n < bound then some n else none

/-- An integer of 64 bits, perhaps behind a sign. Zeros may stand in front. -/
def integer? (cs : List Char) : Option Int :=
  match cs with
  | '-' :: ds => (value? 10 ds).bind fun n => if n ≤ 2 ^ 63 then some (-(n : Int)) else none
  | cs => (natural? (2 ^ 63) cs).map Int.ofNat

/-- The value of a run of decimal digits; other characters count as zeros. -/
def decimalValue (cs : List Char) : Nat :=
  cs.foldl (fun n c => n * 10 + (digit? c).getD 0) 0

/-- The decimal digits of a number, the highest first. -/
def text (n : Nat) : List Char := Nat.toDigits 10 n

/-- How many decimal digits a number has; zero has one. -/
def count (n : Nat) : Nat := (text n).length

/-- The digits of a number in a radix up to 36, filled up with zeros to a
    width. Letters stand for the digits from ten on. -/
def padded (radix width : Nat) (upper : Bool) (n : Nat) : List Char :=
  let ds := Nat.toDigits radix n
  let ds := if upper then ds.map Char.toUpper else ds
  List.replicate (width - ds.length) '0' ++ ds

end Digits

end SimStudio
