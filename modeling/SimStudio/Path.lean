import SimStudio.Text.Split

/-!
# Paths

The names of files as users write them. A path is kept as it was written and is
shown that way; only what asks about its parts takes it apart. Between slashes
stand components. Empty ones, and single points behind others, say nothing and are
skipped. A point at the very beginning counts, since `./a` is shown otherwise
than `a`.

## Main definitions

* `Path`: A path as it was written.
* `Path.join`: A path below another one.
* `Path.parent?`: The path without its last component.
* `Path.fileName?`, `Path.extension?`: The last component, and what follows its last
  point.
-/

namespace SimStudio

/-- A path as it was written. -/
structure Path where
  text : String
  deriving DecidableEq, Inhabited

namespace Path

/-- Whether a component says nothing. -/
def isSilent (name : List Char) : Bool := name == [] || name == ['.']

/-- Whether the path begins at the root. -/
def isAbsolute (p : Path) : Bool := p.text.toList.head? == some '/'

/-- The components, silent ones included. -/
def components (p : Path) : List String := (Text.split '/' p.text.toList).map String.ofList

/-- `q` below `p`; an absolute path is below nothing but the root. -/
def join (p : Path) (q : String) : Path :=
  if (Path.mk q).isAbsolute || p.text.isEmpty then ⟨q⟩
  else if p.text.toList.getLast? == some '/' then ⟨p.text ++ q⟩
  else ⟨p.text ++ "/" ++ q⟩

/-- The beginning of a path that is no component to be taken off: the root, or a
    point. The rest follows. -/
def lead (p : Path) : List Char × List Char :=
  match p.text.toList with
  | '/' :: rest => (['/'], rest)
  | ['.'] => (['.'], [])
  | '.' :: '/' :: rest => (['.'], '/' :: rest)
  | cs => ([], cs)

/-- The components behind the beginning, the last first, from the last one that
    says something on. -/
def reversedBody (p : Path) : List (List Char) :=
  (Text.split '/' p.lead.2).reverse.dropWhile isSilent

/-- The path without its last component. The root has none, nor has the empty
    path; that of a single component is empty. -/
def parent? (p : Path) : Option Path :=
  match p.reversedBody with
  | _ :: before =>
      some ⟨String.ofList (p.lead.1 ++ Text.join '/' (before.dropWhile isSilent).reverse)⟩
  | [] => if p.lead.1 = ['.'] then some ⟨""⟩ else none

/-- The last component, unless it leads upward. -/
def fileName? (p : Path) : Option (List Char) :=
  match p.reversedBody with
  | name :: _ => if name = ['.', '.'] then none else some name
  | [] => none

/-- What stands before and behind the last point, if there is one. -/
def splitLastPoint? (cs : List Char) : Option (List Char × List Char) :=
  let behind := (cs.reverse.takeWhile (· != '.')).reverse
  if behind.length < cs.length then some (cs.take (cs.length - behind.length - 1), behind) else none

/-- What follows the last point of the file name, unless nothing stands before
    it. -/
def extension? (p : Path) : Option (List Char) := do
  let name ← p.fileName?
  let (stem, extension) ← splitLastPoint? name
  if stem.isEmpty then none else some extension

/-- Whether the file name ends as those of JSON files do, in any case of the
    letters. -/
def isJson (p : Path) : Bool := p.extension?.any fun e => e.map Char.toLower == "json".toList

end Path

end SimStudio
