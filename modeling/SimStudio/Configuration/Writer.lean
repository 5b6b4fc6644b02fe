import SimStudio.Configuration.Field

/-!
# Writing Field by Field

A configuration that grows by one line after another. An item of a list is begun
before its first line is known. Its mark then waits, and the next line that begins
with a key takes it, however deep in a value the field of that key is written. A
field that leaves no line lets the mark wait on, and so does a line of text, which
never takes it.

## Main definitions

* `Writer`: The text so far, and whether the mark of an item waits.
* `Writer.put`: Write a line.
* `Writer.value`: Write an arbitrary value at a key.
-/

namespace SimStudio

/-- The text so far, and whether the mark of an item waits for the next key. -/
structure Writer where
  text : String := ""
  itemPending : Bool := false
  deriving DecidableEq, Inhabited

namespace Writer

/-- Begin an item of a list. -/
def beginItem (w : Writer) : Writer := { w with itemPending := true }

/-- Write a line with its end. One that begins with a key takes the mark that waits. -/
def put (w : Writer) : Line → Writer
  | .entry level item text =>
      ⟨w.text ++ (Line.entry level (item || w.itemPending) text).render ++ "\n", false⟩
  | .content level text => { w with text := w.text ++ (Line.content level text).render ++ "\n" }
  | .blank => { w with text := w.text ++ "\n" }

/-- Write lines one after the other. -/
def putAll (w : Writer) (lines : List Line) : Writer := lines.foldl put w

mutual

/-- Write a value at a key; a null is not written. -/
def value (w : Writer) (level : Nat) (key : String) : Json → Writer
  | .null => w
  | .bool b => w.put (bareField level key (Json.bool b).compact)
  | .number n => w.put (bareField level key n.compact)
  | .text s =>
      if s.toList.contains '\n' then w.putAll (proseField level key s)
      else w.put (quotedField level key s)
  | .array items =>
      if items.all isInline then w.put (inlineField level key (items.map scalarItem))
      else each (w.put (heading level key)) (level + 1) items
  | .object members =>
      if allNull members then w.put (bareField level key "\x7b\x7d")
      else fields (w.put (heading level key)) (level + 1) members

/-- Write the items of an array. -/
def each (w : Writer) (level : Nat) : List Json → Writer
  | [] => w
  | v :: rest => each (item w level v) level rest

/-- Write one item. The mark of an object waits for the first of its members that is
    not null. -/
def item (w : Writer) (level : Nat) : Json → Writer
  | .object members =>
      if allNull members then w.put (.content level ("- " ++ (Json.object members).compact))
      else fields w.beginItem (level + 1) members
  | .array items => w.put (.content level ("- " ++ (Json.array items).compact))
  | v => w.put (.content level ("- " ++ scalarItem v))

/-- Write the members of an object. -/
def fields (w : Writer) (level : Nat) : List (String × Json) → Writer
  | [] => w
  | (key, v) :: rest => fields (value w level key v) level rest

end

end Writer

end SimStudio
