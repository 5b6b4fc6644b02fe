import SimStudio.StringMap
import SimStudio.Number.Decimal

/-!
# JSON Values

The arbitrary values a project carries along without looking into them: model
parameters and the defaults of state fields.

A number is either an integer that fits into 64 bits, signed or not, or a
finite binary64 number. Both limits are part of the type, so a value that
exists can always be written down and read again. The members of an object
are kept in ascending order of their keys, one for each key; since they stand
inside the inductive type, that is the predicate `Json.Ordered` and not a
field, and `Json.ofMembers` is how an object is built.

## Main definitions

* `JsonNumber`: An integer of 64 bits or a finite binary64 number.
* `Json`: A value.
* `Json.ofMembers`: The object of a list of members, the last of a key winning.
* `Json.Ordered`: Objects hold their members by ascending key, at every depth.
* `Json.isNull`: Whether a value is null.
-/

namespace SimStudio

/-- A number: an integer that fits into 64 bits with or without a sign, or a
    finite binary64 number. -/
inductive JsonNumber
  | int (value : Int) (fits : -2 ^ 63 ≤ value ∧ value < 2 ^ 64)
  | float (negative : Bool) (magnitude : Magnitude)
  deriving DecidableEq

namespace JsonNumber

/-- An integer as a number, if it fits. -/
def ofInt? (i : Int) : Option JsonNumber :=
  if h : -2 ^ 63 ≤ i ∧ i < 2 ^ 64 then some (.int i h) else none

/-- A binary64 number as a number, if it is finite. -/
def ofBinary64? : Binary64 → Option JsonNumber
  | .finite negative a => some (.float negative a)
  | _ => none

end JsonNumber

/-- A JSON value. -/
inductive Json
  | null
  | bool (b : Bool)
  | number (n : JsonNumber)
  | text (s : String)
  | array (items : List Json)
  | object (members : List (String × Json))
  deriving Inhabited

namespace Json

/-- Whether the value is null. -/
def isNull : Json → Bool
  | null => true
  | _ => false

/-- The object of a list of members; of several with one key the last counts. -/
def ofMembers (members : List (String × Json)) : Json :=
  object (StringMap.ofList members).entries

/-- In every object, at any depth, the keys ascend strictly. -/
inductive Ordered : Json → Prop
  | null : Ordered null
  | bool (b : Bool) : Ordered (bool b)
  | number (n : JsonNumber) : Ordered (number n)
  | text (s : String) : Ordered (text s)
  | array {items : List Json} (each : ∀ v ∈ items, Ordered v) : Ordered (array items)
  | object {members : List (String × Json)} (sorted : Entries.Sorted members)
      (each : ∀ m ∈ members, Ordered m.2) : Ordered (object members)

end Json

end SimStudio
