/-!
# Faults

What happens when a function is called against its contract. A fault is no
answer for a user: the program stops.

## Main definitions

* `Fault`: A contract that was not kept.
* `Fault.message`: The wording.
-/

namespace SimStudio

/-- A contract that was not kept. -/
inductive Fault
  /-- A sum of words does not fit into a word. -/
  | additionOverflow
  /-- A selection begins after its end. -/
  | selectionReversed (first last : Nat)
  /-- A selection ends behind the text. -/
  | selectionPastEnd (last : Nat)
  deriving DecidableEq, Inhabited

/-- The wording of a fault. -/
def Fault.message : Fault → String
  | additionOverflow => "attempt to add with overflow"
  | selectionReversed first last => s!"selection start {first} after end {last}"
  | selectionPastEnd last => s!"selection end {last} past buffer length"

/-- The sum of two words, if it fits into a word. -/
def addWords (a b : UInt32) : Except Fault UInt32 :=
  if a.toNat + b.toNat < UInt32.size then .ok (a + b) else .error .additionOverflow

end SimStudio
