import SimStudio.Json

/-!
# Reading Records

How the parts of a record are taken out of a document, whatever the format of
the document is.

A record knows the names and kinds of its fields; a format knows how a field of
a kind is written. `Format` is the interface between the two: one question for
each kind of field. A format answers with the field's value or with more places
in the document to ask about. Reading either succeeds or fails. Why it fails is
not told: all that is ever reported is that the document could not be read.

A document may refer to its own parts, so that a short text stands for a huge
value. To bound the work, each reference that is followed is paid for, and
reading fails once the sum allotted to the document is spent.

One field is read in two steps: the phase manager of a project says by a tag
among its members which others to expect. So its members are first gathered as
`Content`, which keeps every value that either format can express.

## Main definitions

* `Reading`: Reading a part of a document, on a budget of references.
* `Content`: A value of which it is not yet known what it will be read as.
* `Format`: What can be asked about a place in a document.
* `Fields`: The fields of a record, with the places where they stand.
-/

namespace SimStudio

/-- Reading a part of a document. The state is the number of references that
    may still be followed. -/
abbrev Reading := StateT Nat Option

namespace Reading

/-- A result that may be absent, as a reading. -/
def ofOption {α : Type} (result : Option α) : Reading α := fun budget => result.map (·, budget)

/-- Pay for following a reference. -/
def spend : Reading Unit := fun budget =>
  match budget with
  | 0 => none
  | left + 1 => some ((), left)

end Reading

/-- A value of which it is not yet known what it will be read as. Integers lie
    within 64 bits, with or without a sign. -/
inductive Content
  | null
  | bool (b : Bool)
  | int (i : Int)
  | float (x : Binary64)
  | text (s : String)
  | list (items : List Content)
  | map (entries : List (Content × Content))
  deriving Inhabited

namespace Content

/-- A natural number below a bound. -/
def natural? (bound : Nat) : Content → Option Nat
  | int i => if 0 ≤ i ∧ i.toNat < bound then some i.toNat else none
  | _ => none

/-- A number; an integer stands for the nearest float. -/
def float? : Content → Option Binary64
  | int i => some (Binary64.ofInt i)
  | float x => some x
  | _ => none

/-- The items of a list. -/
def items? : Content → Option (List Content)
  | list items => some items
  | _ => none

end Content

/-- What can be asked about a place `S` in a document. -/
class Format (S : Type) where
  /-- The text that stands here. -/
  text : S → Reading String
  /-- The natural number below a bound that stands here. -/
  natural (bound : Nat) : S → Reading Nat
  /-- The integer of 64 bits that stands here. -/
  integer : S → Reading Int
  /-- Whether nothing is said to stand here; otherwise where something does. -/
  optional : S → Reading (Option S)
  /-- The places of the items of the list that stands here. -/
  items : S → Reading (List S)
  /-- The members of the map that stands here, in the order of the document. -/
  members : S → Reading (List (String × S))
  /-- The fields of the record that stands here, of those that are named. None
      may appear twice; a field that is not named is passed over. -/
  fields (names : List String) : S → Reading (List (String × S))
  /-- The JSON value that stands here. -/
  value : S → Reading Json
  /-- The value of the member with the given name, which must be there once,
      and the content without it. -/
  tagged (name : String) : S → Reading (String × Content)

/-- The fields of a record, with the places where they stand. -/
structure Fields (S : Type) where
  places : List (String × S)

namespace Fields

variable {S α : Type}

/-- The fields of the record at a place. -/
def read [Format S] (names : List String) (place : S) : Reading (Fields S) :=
  Fields.mk <$> Format.fields names place

/-- A field that must be there. -/
def required (fields : Fields S) (name : String) (readField : S → Reading α) : Reading α :=
  match fields.places.lookup name with
  | some place => readField place
  | none => failure

/-- A field with a value that it has when it is not there. -/
def orElse (fields : Fields S) (name : String) (readField : S → Reading α) (absent : α) :
    Reading α :=
  match fields.places.lookup name with
  | some place => readField place
  | none => pure absent

/-- A field that may be missing, or be there and say that it is. -/
def optional [Format S] (fields : Fields S) (name : String) (readField : S → Reading α) :
    Reading (Option α) :=
  fields.orElse name (fun place => do
    match ← Format.optional place with
    | some place => some <$> readField place
    | none => pure none) none

end Fields

namespace Format

variable {S α : Type}

/-- The list that stands at a place, item by item. -/
def list [Format S] (readItem : S → Reading α) (place : S) : Reading (List α) := do
  (← Format.items place).mapM readItem

/-- The map that stands at a place; of several members with one name the last
    counts. -/
def map [Format S] (readMember : S → Reading α) (place : S) : Reading (StringMap α) := do
  let members ← (← Format.members place).mapM fun (name, place) => do
    let v ← readMember place
    pure (name, v)
  pure (StringMap.ofList members)

end Format

/-- The entries of a list of places whose names are asked for, unless one of
    them appears twice. -/
def Fields.select? {S : Type} (names : List String) (members : List (String × S)) :
    Option (List (String × S)) :=
  let known := members.filter fun m => names.contains m.1
  if (known.map Prod.fst).Nodup then some known else none

end SimStudio
