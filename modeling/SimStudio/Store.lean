import SimStudio.Path

/-!
# File Stores

A tree of directories and files, as far as programs can tell: which names lead
to something, and what a file holds. A place in the tree is the list of names
that lead to it, the last first, so that the directory of a place is the rest
of its list.

A path is followed name by name. Whatever is left behind on the way, be it for a
name below it or for the directory above, has to be a directory that exists.
Where the way ends, it is told apart whether something is missing or something
is in the way, because only a missing directory can be created.

Names are limited to 255 bytes and paths to 4095, and neither may hold the null
character.

## Main definitions

* `Store`: A tree, with the place from which relative paths start.
* `Store.locate`: The place that a path leads to.
* `Store.read?`, `Store.holds`, `Store.isDirectory`, `Store.isFile`: Questions about
  a path.
* `Store.createDirectory`, `Store.createDirectories`, `Store.createFresh`,
  `Store.write`, `Store.move`, `Store.remove`: Changes.
-/

namespace SimStudio

/-- What stands at a place. -/
inductive Node
  | file (content : ByteArray)
  | directory
  deriving Inhabited

/-- Whether a directory stands at a place. -/
def Node.isDirectory : Node → Bool
  | file _ => false
  | directory => true

/-- A place in a tree: the names that lead to it, the last first. -/
abbrev Location := List String

/-- Whether a text can be the name of something in a directory. -/
def isName (name : String) : Bool :=
  name != "" && name != "." && name != ".." && !name.toList.contains '/'

/-- A tree of directories and files. The root is not listed. -/
structure Store where
  nodes : List (Location × Node) := []
  /-- Where relative paths start. -/
  workingDirectory : Location := []
  /-- Where files go that nobody is to keep. -/
  temporaryDirectory : Location := []
  workingDirectory_names : ∀ name ∈ workingDirectory, isName name = true := by decide
  temporaryDirectory_names : ∀ name ∈ temporaryDirectory, isName name = true := by decide

instance : Inhabited Store := ⟨{}⟩

/-- The tree with the given nodes, where all paths start at the root. -/
def Store.ofNodes (nodes : List (Location × Node)) : Store := { nodes }

/-- Why a way through the tree ends. -/
inductive Obstacle
  | missing
  | inTheWay
  deriving DecidableEq, Inhabited

/-- Whether a name is too long for a directory. -/
def isTooLong (name : String) : Bool := 255 < name.utf8ByteSize

/-- Whether a text ends with a name. -/
def isEnding (name text : String) : Bool := name.toList.isSuffixOf text.toList

namespace Store

/-- What stands at a place. -/
def node? (s : Store) (place : Location) : Option Node :=
  if place = [] then some .directory else s.nodes.lookup place

/-- The tree with something at a place, in the stead of what was there. -/
def put (s : Store) (place : Location) (n : Node) : Store :=
  { s with nodes := (place, n) :: s.nodes.filter (·.1 != place) }

/-- The tree with nothing at a place. -/
def erase (s : Store) (place : Location) : Store := { s with nodes := s.nodes.filter (·.1 != place) }

/-- Whether a directory stands at a place. -/
def enter (s : Store) (place : Location) : Except Obstacle Unit :=
  match s.node? place with
  | some .directory => .ok ()
  | some (.file _) => .error .inTheWay
  | none => .error .missing

/-- The place to which components lead from a place. -/
def walk (s : Store) (place : Location) : List String → Except Obstacle Location
  | [] => .ok place
  | name :: rest => do
      s.enter place
      if name = "" ∨ name = "." then walk s place rest
      else if name = ".." then walk s place.tail rest
      else if isTooLong name then .error .inTheWay
      else walk s (name :: place) rest

/-- Where a path starts. -/
def start (s : Store) (p : Path) : Location := if p.isAbsolute then [] else s.workingDirectory

/-- Whether a path can lead anywhere at all. -/
def admits (p : Path) : Except Obstacle Unit :=
  if p.text.isEmpty then .error .missing
  else if p.text.toList.contains '\x00' || 4095 < p.text.utf8ByteSize then .error .inTheWay
  else .ok ()

/-- The place that a path leads to, where nothing need stand. -/
def locate (s : Store) (p : Path) : Except Obstacle Location := do
  admits p
  s.walk (s.start p) p.components

/-- What stands where a path leads to. -/
def get? (s : Store) (p : Path) : Option Node :=
  match s.locate p with
  | .ok place => s.node? place
  | .error _ => none

/-- Whether something stands where a path leads to. -/
def holds (s : Store) (p : Path) : Bool := (s.get? p).isSome

/-- Whether a path leads to a directory. -/
def isDirectory (s : Store) (p : Path) : Bool := (s.get? p).any Node.isDirectory

/-- What a file holds. -/
def read? (s : Store) (p : Path) : Option ByteArray :=
  match s.get? p with
  | some (.file content) => some content
  | _ => none

/-- Whether a path leads to a file. -/
def isFile (s : Store) (p : Path) : Bool := (s.read? p).isSome

/-- The directory in which the last component of a path is to stand, and that
    component. Slashes at the end do not count. -/
def locateEntry (s : Store) (p : Path) : Except Obstacle (Location × String) := do
  admits p
  match p.components.reverse.dropWhile (· == "") with
  | [] => .error .inTheWay
  | name :: before => do
      let directory ← s.walk (s.start p) before.reverse
      s.enter directory
      if name = "." ∨ name = ".." ∨ isTooLong name then .error .inTheWay
      else .ok (directory, name)

/-- Create a directory in one that exists. -/
def createDirectory (s : Store) (p : Path) : Except Obstacle Store := do
  let (directory, name) ← s.locateEntry p
  match s.node? (name :: directory) with
  | some _ => .error .inTheWay
  | none => .ok (s.put (name :: directory) .directory)

/-- Create a directory with all that are missing above it, as far as that goes,
    and tell whether it is there in the end. Every step goes one component up, which
    fuel limits. -/
def createMissing : (fuel : Nat) → Store → Path → Bool × Store
  | 0, s, _ => (false, s)
  | fuel + 1, s, p =>
      if p.text.isEmpty then (true, s)
      else
        match s.createDirectory p with
        | .ok s => (true, s)
        | .error .inTheWay => (s.isDirectory p, s)
        | .error .missing =>
            match p.parent? with
            | none => (false, s)
            | some above =>
                match createMissing fuel s above with
                | (false, s) => (false, s)
                | (true, s) =>
                    match s.createDirectory p with
                    | .ok s => (true, s)
                    | .error _ => (s.isDirectory p, s)

/-- Create a directory with all that are missing above it. -/
def createDirectories (s : Store) (p : Path) : Bool × Store :=
  createMissing (p.components.length + 1) s p

/-- Create a directory with all that are missing above it, but stop before its last
    component and so many more. -/
def createAbove (s : Store) (p : Path) (more : Nat) : Store :=
  match p.parent? with
  | none => s
  | some above =>
      match more with
      | 0 => (s.createDirectories above).2
      | more + 1 => s.createAbove above more

/-- The first name of a series that is not taken and does not end any of the texts that
    are known. Of more names than there are nodes and texts, one is left. -/
def freshName (s : Store) (known : List String) (directory : Location) (name : Nat → String) :
    String :=
  (((List.range (s.nodes.length + known.length + 1)).map name).find? fun name =>
    (s.node? (name :: directory)).isNone && !known.any (isEnding name)).getD ""

/-- Create an empty file with a name of its own in a directory. -/
def createFresh (s : Store) (known : List String) (directory : Location) (name : Nat → String) :
    Option (Location × Store) :=
  match s.enter directory with
  | .error _ => none
  | .ok () =>
      let place := s.freshName known directory name :: directory
      some (place, s.put place (.file .empty))

/-- Give a file that is there a content. -/
def write (s : Store) (p : Path) (content : ByteArray) : Bool × Store :=
  match s.locate p with
  | .error _ => (false, s)
  | .ok place =>
      match s.node? place with
      | some (.file _) => (true, s.put place (.file content))
      | _ => (false, s)

/-- Move a file to where a path leads to, in the stead of a file that may stand
    there. A directory is never replaced, and a path with a slash at its end
    means one. -/
def replace (s : Store) (source : Location) (target : Path) : Option Store :=
  match s.node? source, s.locateEntry target with
  | some (.file content), .ok (directory, name) =>
      if target.text.toList.getLast? = some '/' then none
      else if (s.node? (name :: directory)).any Node.isDirectory then none
      else some ((s.erase source).put (name :: directory) (.file content))
  | _, _ => none

/-- Move a file that a path leads to. -/
def move (s : Store) (source target : Path) : Bool × Store :=
  match s.locate source with
  | .error _ => (false, s)
  | .ok place =>
      match s.replace place target with
      | some t => (true, t)
      | none => (false, s)

/-- Remove what a path leads to. -/
def remove (s : Store) (p : Path) : Store :=
  match s.locate p with
  | .ok place => s.erase place
  | .error _ => s

end Store

end SimStudio
