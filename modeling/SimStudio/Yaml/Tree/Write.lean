import SimStudio.Yaml.Tree.Scalar

/-!
# Writing Trees

A tree as a text of block collections, two columns for each level. A list
stands in the column of its key; a collection that stands behind a dash begins
on the same line. Empty collections are written as `[]` and `{}`.

A key is written before its colon on one line. One that has line ends, or more
than 128 bytes, is written behind a question mark, and its value behind a
colon on a line below.

## Main definitions

* `Yaml.layout`: The decisions of the format about floats.
* `Yaml.Tree.write`: The text of a tree.
-/

namespace SimStudio

namespace Yaml

/-- Floats keep a point, a half goes to the even digit, and from the order 16
    upward and below the order -5 there is an exponent, without a plus sign. -/
def layout : FloatLayout := ⟨.even, some (-5, 15), true, false⟩

/-- A float as a plain scalar. -/
def floatText : Binary64 → String
  | .finite negative a => layout.signedText negative a
  | .infinite false => ".inf"
  | .infinite true => "-.inf"
  | .nan => ".nan"

/-- Whether a key can stand before its colon on one line. -/
def isSimpleKey (key : String) : Bool :=
  !(key.toList.any isBreak) && key.utf8ByteSize ≤ 128

/-- What stands before a value on its line. -/
inductive Lead
  /-- Nothing, or a mark with its blank: the line is open. -/
  | begun
  /-- The colon of a key. -/
  | afterKey
  deriving DecidableEq

/-- What parts a scalar from the text before it. -/
def Lead.gap : Lead → List Char
  | .begun => []
  | .afterKey => [' ']

namespace Tree

mutual

/-- A value behind its lead, within a collection whose lines begin in the column
    `indent`. Behind a key a collection begins on the next line: a list in the
    column of the key, a mapping one level deeper. -/
def valueText (lead : Lead) (indent : Nat) : Tree → List Char
  | null => lead.gap ++ "null\n".toList
  | bool true => lead.gap ++ "true\n".toList
  | bool false => lead.gap ++ "false\n".toList
  | int i => lead.gap ++ (toString i).toList ++ ['\n']
  | float x => lead.gap ++ (floatText x).toList ++ ['\n']
  | text s =>
      match lead with
      | .begun => scalarText indent s
      | .afterKey => ' ' :: scalarText (indent + 2) s
  | sequence items =>
      if items.isEmpty then lead.gap ++ ['[', ']', '\n']
      else
        match lead with
        | .begun => itemTexts true indent items
        | .afterKey => '\n' :: itemTexts false indent items
  | mapping entries =>
      if entries.isEmpty then lead.gap ++ ['{', '}', '\n']
      else
        match lead with
        | .begun => entryTexts true indent entries
        | .afterKey => '\n' :: entryTexts false (indent + 2) entries

/-- The items of a list. The line of the first may have been begun already. -/
def itemTexts (begun : Bool) (indent : Nat) : List Tree → List Char
  | [] => []
  | x :: rest =>
      (if begun then [] else spaces indent) ++
        ('-' :: ' ' :: (valueText .begun (indent + 2) x ++ itemTexts false indent rest))

/-- The entries of a mapping. The line of the first may have been begun
    already. -/
def entryTexts (begun : Bool) (indent : Nat) : List (String × Tree) → List Char
  | [] => []
  | (k, v) :: rest =>
      (if begun then [] else spaces indent) ++
        ((if isSimpleKey k then
            scalarIn (styleOf k) (indent + 2) k.toList ++ ':' :: valueText .afterKey indent v
          else
            '?' :: ' ' :: (scalarText (indent + 2) k ++
              (spaces indent ++ ':' :: ' ' :: valueText .begun (indent + 2) v))) ++
          entryTexts false indent rest)

end

/-- The text of a tree. -/
def write (t : Tree) : String := String.ofList (t.valueText .begun 0)

end Tree

end Yaml

end SimStudio
