import SimStudio.Json
import SimStudio.Yaml.Scalar

/-!
# Trees to be Written

What a record looks like on its way into a file: a tree of named parts, in the
order in which they are to appear. Anchors, tags and styles are not part of
it; how a scalar is written is decided by the writer.

## Main definitions

* `Yaml.Tree`: A tree.
* `Json.toTree`: A JSON value as a tree.
-/

namespace SimStudio

namespace Yaml

/-- A tree of scalars, lists and named parts. -/
inductive Tree
  | null
  | bool (b : Bool)
  | int (i : Int)
  | float (x : Binary64)
  | text (s : String)
  | sequence (items : List Tree)
  | mapping (entries : List (String × Tree))
  deriving Inhabited

end Yaml

namespace Json

mutual

/-- A JSON value as a tree. -/
def toTree : Json → Yaml.Tree
  | null => .null
  | bool b => .bool b
  | number (.int i _) => .int i
  | number (.float negative a) => .float (.finite negative a)
  | text s => .text s
  | array items => .sequence (toTreeItems items)
  | object members => .mapping (toTreeMembers members)

/-- The items of an array as trees. -/
def toTreeItems : List Json → List Yaml.Tree
  | [] => []
  | v :: rest => toTree v :: toTreeItems rest

/-- The members of an object as trees. -/
def toTreeMembers : List (String × Json) → List (String × Yaml.Tree)
  | [] => []
  | (key, v) :: rest => (key, toTree v) :: toTreeMembers rest

end

end Json

end SimStudio
