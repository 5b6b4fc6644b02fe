import SimStudio.Number.Digits

/-!
# Prompt Slots

A role has its prompts in named slots. Some names are known: the system and the
user prompt for all phases, and those for a phase by its number. The prompts
are written in the order in which the runner comes to use them: those for all
phases, then phase by phase, and within a phase the system prompt before the
user prompt. Slots with other names follow in the order of their names.

Two names can stand for one slot, because a phase number may be written with
zeros in front or with a plus sign. Such slots keep the order of their names.

## Main definitions

* `Slot`: What a slot's name says.
* `Slot.ofName`: Read a slot's name.
* `Slot.le`: The order in which slots are written.
* `inSlotOrder`: Prompts in that order.
-/

namespace SimStudio

/-- The two kinds of prompt. -/
inductive PromptKind
  | system
  | user
  deriving DecidableEq, Inhabited

namespace PromptKind

/-- The place of a kind in the order. -/
def rank : PromptKind → Nat
  | system => 0
  | user => 1

/-- The name of a kind. -/
def name : PromptKind → List Char
  | system => "system".toList
  | user => "user".toList

end PromptKind

/-- What a slot's name says. -/
inductive Slot
  | allPhases (kind : PromptKind)
  | phase (number : UInt32) (kind : PromptKind)
  | other (name : String)
  deriving DecidableEq, Inhabited

namespace Slot

/-- What stands behind `lead` in a text that begins with it. -/
def after? (lead cs : List Char) : Option (List Char) :=
  if lead.isPrefixOf cs then some (cs.drop lead.length) else none

/-- The slot for a phase and a kind of prompt that a name stands for. -/
def phase? (kind : PromptKind) (name : List Char) : Option Slot := do
  let digits ← after? (kind.name ++ "_phase_".toList) name
  let n ← Digits.natural? (2 ^ 32) digits
  pure (.phase (UInt32.ofNat n) kind)

/-- The slot that a name stands for. -/
def ofName (name : String) : Slot :=
  let cs := name.toList
  if cs = PromptKind.system.name then .allPhases .system
  else if cs = PromptKind.user.name then .allPhases .user
  else ((phase? .system cs).or (phase? .user cs)).getD (.other name)

/-- Whether a slot is written no later than another one. -/
def le : Slot → Slot → Bool
  | allPhases a, allPhases b => a.rank ≤ b.rank
  | allPhases _, _ => true
  | phase .., allPhases _ => false
  | phase m a, phase n b => m < n || (m == n && a.rank ≤ b.rank)
  | phase .., other _ => true
  | other a, other b => a ≤ b
  | other _, _ => false

end Slot

/-- Prompts, given by ascending names, in the order of their slots. -/
def inSlotOrder (prompts : List (String × String)) : List (String × String) :=
  prompts.mergeSort fun a b => (Slot.ofName a.1).le (Slot.ofName b.1)

end SimStudio
