import SimStudio.Json.Numeral
import SimStudio.Record

/-!
# Records in JSON

JSON as a format for records. Kinds are kept apart: a number is no text, and a
float is no integer even if it is whole. A record is an object, or an array of
its fields in their order, of which those at the end may be missing. A missing
value is `null`.

Objects and arrays that are looked into may be nested in one another up to 127
deep; the rest of the document is not limited.

## Main definitions

* `Json.Place`: A value in a text, with how much deeper it may go.
* `Json.Written.toJson?`: A written value as a JSON value.
* `Json.Written.toContent?`: A written value as content.
* `Json.readText?`: Read a record out of a text.
-/

namespace SimStudio

namespace Json

/-- How deeply objects and arrays may be nested. -/
def depthLimit : Nat := 127

/-- A value in a text, with how much deeper it may go. -/
structure Place where
  value : Written
  depth : Nat
  deriving Inhabited

namespace Written

mutual

/-- The JSON value that is written. -/
def toJson? (depth : Nat) : Written → Option Json
  | null => some .null
  | bool b => some (.bool b)
  | number n => n.value?.map .number
  | text pieces => (Piece.text? pieces).map .text
  | array items => if depth = 0 then none else (toJsonItems? (depth - 1) items).map .array
  | object members =>
      if depth = 0 then none else (toJsonMembers? (depth - 1) members).map ofMembers

/-- The items of an array. -/
def toJsonItems? (depth : Nat) : List Written → Option (List Json)
  | [] => some []
  | v :: rest => do
      let v ← toJson? depth v
      let rest ← toJsonItems? depth rest
      pure (v :: rest)

/-- The members of an object. -/
def toJsonMembers? (depth : Nat) : List (List Piece × Written) → Option (List (String × Json))
  | [] => some []
  | (key, v) :: rest => do
      let key ← Piece.text? key
      let v ← toJson? depth v
      let rest ← toJsonMembers? depth rest
      pure ((key, v) :: rest)

end

mutual

/-- The content that is written. -/
def toContent? (depth : Nat) : Written → Option Content
  | null => some .null
  | bool b => some (.bool b)
  | number n => n.value?.map fun
      | .int i _ => .int i
      | .float negative a => .float (.finite negative a)
  | text pieces => (Piece.text? pieces).map .text
  | array items => if depth = 0 then none else (toContentItems? (depth - 1) items).map .list
  | object members =>
      if depth = 0 then none else (toContentMembers? (depth - 1) members).map .map

/-- The items of an array. -/
def toContentItems? (depth : Nat) : List Written → Option (List Content)
  | [] => some []
  | v :: rest => do
      let v ← toContent? depth v
      let rest ← toContentItems? depth rest
      pure (v :: rest)

/-- The members of an object. -/
def toContentMembers? (depth : Nat) :
    List (List Piece × Written) → Option (List (Content × Content))
  | [] => some []
  | (key, v) :: rest => do
      let key ← Piece.text? key
      let v ← toContent? depth v
      let rest ← toContentMembers? depth rest
      pure ((.text key, v) :: rest)

end

end Written

namespace Place

/-- The text of a string. -/
def text? (p : Place) : Option String :=
  match p.value with
  | .text pieces => Piece.text? pieces
  | _ => none

/-- The integer of a number that is written as one. -/
def int? (p : Place) : Option Int :=
  match p.value with
  | .number n =>
      match n.value? with
      | some (.int i _) => some i
      | _ => none
  | _ => none

/-- The places of the items of an array. -/
def items? (p : Place) : Option (List Place) :=
  match p.value with
  | .array items => if p.depth = 0 then none else some (items.map (⟨·, p.depth - 1⟩))
  | _ => none

/-- The places of the members of an object. -/
def members? (p : Place) : Option (List (String × Place)) :=
  match p.value with
  | .object members =>
      if p.depth = 0 then none
      else members.mapM fun (key, v) => (Piece.text? key).map fun key => (key, ⟨v, p.depth - 1⟩)
  | _ => none

/-- The fields of an object, or of an array in the order of their names. -/
def fields? (names : List String) (p : Place) : Option (List (String × Place)) :=
  match p.value with
  | .object _ => (members? p).bind (Fields.select? names)
  | .array _ =>
      (items? p).bind fun places =>
        if places.length ≤ names.length then some (names.zip places) else none
  | _ => none

/-- The tag of an object under its name, or of an array as its first item, and
    the content of the rest. -/
def tagged? (name : String) (p : Place) : Option (String × Content) :=
  match p.value with
  | .object _ => do
      let members ← members? p
      match members.filter (·.1 == name) with
      | [(_, tag)] =>
          let rest ← (members.filter (·.1 != name)).mapM fun (key, v) =>
            (v.value.toContent? v.depth).map fun v => (Content.text key, v)
          pure (← tag.text?, .map rest)
      | _ => none
  | .array _ => do
      match ← items? p with
      | tag :: rest =>
          let rest ← rest.mapM fun v => v.value.toContent? v.depth
          pure (← tag.text?, .list rest)
      | [] => none
  | _ => none

instance : Format Place where
  text p := .ofOption p.text?
  natural bound p := .ofOption do
    let i ← p.int?
    if 0 ≤ i ∧ i.toNat < bound then some i.toNat else none
  integer p := .ofOption do
    let i ← p.int?
    if -2 ^ 63 ≤ i ∧ i < 2 ^ 63 then some i else none
  optional p := pure (match p.value with | .null => none | _ => some p)
  items p := .ofOption p.items?
  members p := .ofOption p.members?
  fields names p := .ofOption (p.fields? names)
  value p := .ofOption (p.value.toJson? p.depth)
  tagged name p := .ofOption (p.tagged? name)

end Place

/-- Read a record out of a text. There are no references in JSON. -/
def readText? {α : Type} (read : Place → Reading α) (text : String) : Option α := do
  let v ← written? text
  let (record, _) ← read ⟨v, depthLimit⟩ 0
  pure record

end Json

end SimStudio
