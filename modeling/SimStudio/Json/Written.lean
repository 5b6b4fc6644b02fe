import SimStudio.Json
import SimStudio.Number.Digits

/-!
# JSON as Written

The grammar of JSON, without any decision about what its parts are good for:
numbers stay digits, and strings stay runs of characters and escaped code
units. Those decisions depend on whether a part is wanted at all. A project
file may hold members that nobody asks for; such a member has to keep to the
grammar, but its numbers may be of any size, its strings may escape half a
surrogate pair, and it may be nested as deeply as it likes.

The functions recurse on fuel. Every call but the first follows a character
that has been consumed, so that one more than the length of the text is enough.

## Main definitions

* `Json.Numeral`: A number by its digits.
* `Json.Piece`: A character of a string, or an escaped code unit.
* `Json.Written`: A value as it is written.
* `Json.written?`: Read a text that holds one value.
* `Json.Piece.decode?`: The text that the pieces of a string make.
-/

namespace SimStudio

namespace Json

/-- A number by its digits. A fraction or an exponent that is not there has
    no digits. -/
structure Numeral where
  negative : Bool
  whole : List Char
  fraction : List Char
  exponentNegative : Bool
  exponent : List Char
  deriving DecidableEq, Inhabited

/-- A part of a string: a character, or a code unit of four escaped digits. -/
inductive Piece
  | char (c : Char)
  | unit (n : Nat)
  deriving DecidableEq, Inhabited

/-- A value as it is written. -/
inductive Written
  | null
  | bool (b : Bool)
  | number (n : Numeral)
  | text (pieces : List Piece)
  | array (items : List Written)
  | object (members : List (List Piece × Written))
  deriving Inhabited

namespace Piece

/-- The text that the pieces of a string make, if every escaped surrogate has
    its other half. -/
def decode? : List Piece → Option (List Char)
  | [] => some []
  | char c :: rest => (decode? rest).map (c :: ·)
  | [unit n] => if n < 0xD800 ∨ 0xE000 ≤ n then some [Char.ofNat n] else none
  | unit n :: char c :: rest =>
      if n < 0xD800 ∨ 0xE000 ≤ n then (decode? rest).map (Char.ofNat n :: c :: ·) else none
  | unit n :: unit m :: rest =>
      if n < 0xD800 ∨ 0xE000 ≤ n then (decode? (unit m :: rest)).map (Char.ofNat n :: ·)
      else if n < 0xDC00 ∧ 0xDC00 ≤ m ∧ m < 0xE000 then
        (decode? rest).map (Char.ofNat (0x10000 + (n - 0xD800) * 0x400 + (m - 0xDC00)) :: ·)
      else none

/-- The pieces as text. -/
def text? (pieces : List Piece) : Option String := (decode? pieces).map String.ofList

end Piece

namespace Grammar

/-- The characters that may stand between lexemes. -/
def isGap (c : Char) : Bool := c == ' ' || c == '\n' || c == '\t' || c == '\r'

/-- Past the gap at the beginning. -/
def skipGap (cs : List Char) : List Char := cs.dropWhile isGap

/-- The character that a letter behind a backslash stands for. -/
def escape? : Char → Option Char
  | '"' => some '"'
  | '\\' => some '\\'
  | '/' => some '/'
  | 'b' => some '\x08'
  | 'f' => some '\x0c'
  | 'n' => some '\n'
  | 'r' => some '\r'
  | 't' => some '\t'
  | _ => none

/-- The pieces of a string up to its closing quote; `read` holds those before,
    the last first. -/
def stringBody (read : List Piece) : List Char → Option (List Piece × List Char)
  | [] => none
  | '"' :: rest => some (read.reverse, rest)
  | '\\' :: 'u' :: a :: b :: c :: d :: rest =>
      match Digits.value? 16 [a, b, c, d] with
      | some n => stringBody (.unit n :: read) rest
      | none => none
  | '\\' :: e :: rest =>
      match escape? e with
      | some c => stringBody (.char c :: read) rest
      | none => none
  | c :: rest => if c.toNat < 0x20 then none else stringBody (.char c :: read) rest

/-- A run of at least one digit, with what follows. -/
def digits? (cs : List Char) : Option (List Char × List Char) :=
  let ds := cs.takeWhile Char.isDigit
  if ds.isEmpty then none else some (ds, cs.dropWhile Char.isDigit)

/-- The digits before the point: a zero, or digits that begin with none. -/
def whole? : List Char → Option (List Char × List Char)
  | '0' :: rest => some (['0'], rest)
  | cs => digits? cs

/-- The fraction of a number, if a point follows. -/
def fraction? : List Char → Option (List Char × List Char)
  | '.' :: rest => digits? rest
  | cs => some ([], cs)

/-- The sign of an exponent. -/
def exponentSign : List Char → Bool × List Char
  | '-' :: rest => (true, rest)
  | '+' :: rest => (false, rest)
  | cs => (false, cs)

/-- The exponent of a number, if its mark follows. -/
def exponent? : List Char → Option (Bool × List Char × List Char)
  | [] => some (false, [], [])
  | c :: rest =>
      if c = 'e' ∨ c = 'E' then
        let (negative, ds) := exponentSign rest
        (digits? ds).map fun (ds, rest) => (negative, ds, rest)
      else some (false, [], c :: rest)

/-- A number. -/
def numeral? (negative : Bool) (cs : List Char) : Option (Numeral × List Char) := do
  let (whole, cs) ← whole? cs
  let (fraction, cs) ← fraction? cs
  let (exponentNegative, exponent, cs) ← exponent? cs
  pure (⟨negative, whole, fraction, exponentNegative, exponent⟩, cs)

mutual

/-- Read a value at the beginning of a text. -/
def value : (fuel : Nat) → List Char → Option (Written × List Char)
  | 0, _ => none
  | fuel + 1, cs =>
      match skipGap cs with
      | 'n' :: 'u' :: 'l' :: 'l' :: rest => some (.null, rest)
      | 't' :: 'r' :: 'u' :: 'e' :: rest => some (.bool true, rest)
      | 'f' :: 'a' :: 'l' :: 's' :: 'e' :: rest => some (.bool false, rest)
      | '"' :: rest => (stringBody [] rest).map fun (pieces, rest) => (.text pieces, rest)
      | '-' :: rest => (numeral? true rest).map fun (n, rest) => (.number n, rest)
      | '[' :: rest =>
          match skipGap rest with
          | ']' :: rest => some (.array [], rest)
          | rest => (items fuel rest).map fun (vs, rest) => (.array vs, rest)
      | '{' :: rest =>
          match skipGap rest with
          | '}' :: rest => some (.object [], rest)
          | rest => (members fuel rest).map fun (ms, rest) => (.object ms, rest)
      | rest => (numeral? false rest).map fun (n, rest) => (.number n, rest)

/-- Read the items of an array up to its closing bracket. -/
def items : (fuel : Nat) → List Char → Option (List Written × List Char)
  | 0, _ => none
  | fuel + 1, cs => do
      let (v, cs) ← value fuel cs
      match skipGap cs with
      | ',' :: rest => do
          let (vs, rest) ← items fuel rest
          pure (v :: vs, rest)
      | ']' :: rest => pure ([v], rest)
      | _ => none

/-- Read the members of an object up to its closing brace. -/
def members : (fuel : Nat) → List Char → Option (List (List Piece × Written) × List Char)
  | 0, _ => none
  | fuel + 1, cs =>
      match skipGap cs with
      | '"' :: rest => do
          let (key, rest) ← stringBody [] rest
          match skipGap rest with
          | ':' :: rest => do
              let (v, rest) ← value fuel rest
              match skipGap rest with
              | ',' :: rest => do
                  let (ms, rest) ← members fuel rest
                  pure ((key, v) :: ms, rest)
              | '}' :: rest => pure ([(key, v)], rest)
              | _ => none
          | _ => none
      | _ => none

end

end Grammar

/-- Read a text that holds one value and nothing else. -/
def written? (text : String) : Option Written :=
  let cs := text.toList
  match Grammar.value (cs.length + 1) cs with
  | some (v, rest) => if (Grammar.skipGap rest).isEmpty then some v else none
  | none => none

end Json

end SimStudio
