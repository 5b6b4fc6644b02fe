import SimStudio.Store
import SimStudio.Timestamp

/-!
# Machines

What a program needs from the machine on which it runs: files, a line of input,
two streams of output, a log, a clock, and ids that nobody else has. Programs
are written for any machine. A real one does these things by itself; here is
also a machine that only keeps books, a `World`, on which it can be seen what a
program does.

Every question about files is answered, and a change that cannot be made is
answered by saying so. Why it cannot be made is the machine's own business. A
change that is not made may still leave something behind: some of the directories
that were to be created, or the beginning of what was to be written. Only to remove a
file never fails.

The names of new files are made up. A real machine draws them at random, so that nobody
can name such a file before it is there. A machine that keeps books goes through a
series of names instead, and passes over those that are taken and those with which a
text ends that has been logged: no file that a program has spoken of is made up later.

## Main definitions

* `Machine`: What a program needs.
* `World`: A machine that keeps books.
* `World.change`: A change to files, which may stop half way.
* `World.mentioned`: The texts that no new file is named by.
* `LogEntry`: A message with its level and what it is about.
-/

namespace SimStudio

/-- How important a message is. -/
inductive LogLevel
  | error
  | warn
  | info
  | debug
  deriving DecidableEq, Inhabited

namespace LogLevel

/-- The name of a level. -/
def name : LogLevel → String
  | error => "ERROR"
  | warn => "WARN"
  | info => "INFO"
  | debug => "DEBUG"

/-- The place of a level, the most important first. -/
def rank : LogLevel → Nat
  | error => 0
  | warn => 1
  | info => 2
  | debug => 3

/-- The least important level that a user gets to see who asks for more so many
    times. -/
def ofVerbosity : Nat → LogLevel
  | 0 => warn
  | 1 => info
  | _ => debug

end LogLevel

/-- A message with its level and what it is about. -/
structure LogEntry where
  level : LogLevel
  message : String
  /-- The things that it is about, each behind its name. -/
  fields : List (String × String) := []
  deriving DecidableEq, Inhabited

/-- What a program needs from the machine on which it runs. -/
class Machine (m : Type → Type) extends Monad m where
  /-- What a file holds, if there is one. -/
  readFile : Path → m (Option ByteArray)
  /-- Whether something stands where a path leads to. -/
  holds : Path → m Bool
  /-- Whether a directory stands where a path leads to. -/
  isDirectory : Path → m Bool
  /-- Whether a file stands where a path leads to. -/
  isFile : Path → m Bool
  /-- Create a directory with all that are missing above it. -/
  createDirectories : Path → m Bool
  /-- A new empty file in a directory, under a name that was free. -/
  createTemporary (directory : Path) : m (Option Path)
  /-- A new empty file in a place where nobody looks for it. -/
  stage : m (Option Path)
  /-- Give a new file its content. -/
  write : Path → ByteArray → m Bool
  /-- See to it that the content of a file is on the disk. -/
  sync : Path → m Bool
  /-- Move a file, in the stead of a file that may be at the target. -/
  replace (source target : Path) : m Bool
  /-- Remove a file. -/
  remove : Path → m Unit
  /-- The next line of input with its end; nothing where the input ends. -/
  readLine : m ByteArray
  /-- Write to the output. -/
  print : String → m Unit
  /-- Write to where the user is asked something. -/
  prompt : String → m Unit
  /-- Tell something on the log, with the things that it is about by their names. -/
  log (level : LogLevel) (message : String) (fields : List (String × String)) : m Unit
  /-- The directory where relative paths start, from the root. -/
  currentDirectory : m Path
  /-- Whether somebody sits before the machine who can be asked. -/
  interactive : m Bool
  /-- An id that was not given before. -/
  freshId : m String
  now : m Timestamp

/-- A machine that keeps books. Nobody sits before it. -/
structure World where
  store : Store := {}
  /-- How the coming changes to files go wrong, the next one first: not at all, or they
      stop after so many steps. What comes after these changes does not go wrong. -/
  interruptions : List (Option Nat) := []
  /-- What is still to be read. -/
  input : List UInt8 := []
  output : String := ""
  prompts : String := ""
  log : Array LogEntry := #[]
  /-- How many ids have been given. -/
  idsGiven : Nat := 0
  time : Timestamp := default
  deriving Inhabited

namespace World

/-- The path to a place from the root. -/
def absolutePath (place : Location) : Path := ⟨"/" ++ "/".intercalate place.reverse⟩

/-- The names of temporary files. -/
def temporaryName (n : Nat) : String := s!".tmp{n}"

/-- The names of staged files. -/
def stagedName (n : Nat) : String := s!"staged-{n}.yaml"

/-- The first line of some input with its end, and the rest. -/
def splitLine : List UInt8 → List UInt8 × List UInt8
  | [] => ([], [])
  | b :: rest =>
      if b = 10 then ([b], rest)
      else
        let (line, rest) := splitLine rest
        (b :: line, rest)

/-- The id that is given as the `n`th. -/
def idText (n : Nat) : String :=
  String.ofList ("00000000-0000-4000-8000-".toList ++ Digits.padded 16 12 false n)

/-- The texts that something in the log is about. -/
def mentioned (w : World) : List String :=
  w.log.toList.flatMap fun entry => entry.fields.map Prod.snd

/-- Put a new file into a directory, and tell its path. A file whose path cannot be
    followed is not made. -/
def createFresh (w : World) (directory : Location) (name : Nat → String) : Option Path × Store :=
  match w.store.createFresh w.mentioned directory name with
  | some (place, t) =>
      match t.locate (absolutePath place) with
      | .ok _ => (some (absolutePath place), t)
      | .error _ => (none, w.store)
  | none => (none, w.store)

/-- Put a new file into the directory that a path leads to, and tell its path. -/
def createFreshIn (w : World) (directory : Path) (name : Nat → String) : Option Path × Store :=
  match w.store.locate directory with
  | .ok place => w.createFresh place name
  | .error _ => (none, w.store)

/-- Make the next change to files: the whole of it, or what there is of it where it
    stops. -/
def change {α : Type} (w : World) (whole : α × Store) (stopped : Nat → α × Store) : α × World :=
  let made := match w.interruptions with
    | some steps :: _ => stopped steps
    | _ => whole
  (made.1, { w with store := made.2, interruptions := w.interruptions.tail })

instance : Machine (StateM World) where
  readFile p := do return (← get).store.read? p
  holds p := do return (← get).store.holds p
  isDirectory p := do return (← get).store.isDirectory p
  isFile p := do return (← get).store.isFile p
  createDirectories p := modifyGet fun w =>
    w.change (w.store.createDirectories p) fun more => (false, w.store.createAbove p more)
  createTemporary directory := modifyGet fun w =>
    w.change (w.createFreshIn directory temporaryName) fun _ => (none, w.store)
  stage := modifyGet fun w =>
    w.change (w.createFresh w.store.temporaryDirectory stagedName) fun _ => (none, w.store)
  write p content := modifyGet fun w =>
    w.change (w.store.write p content) fun size =>
      (false, (w.store.write p (content.extract 0 size)).2)
  sync p := modifyGet fun w => w.change (w.store.isFile p, w.store) fun _ => (false, w.store)
  replace source target := modifyGet fun w =>
    w.change (w.store.move source target) fun _ => (false, w.store)
  remove p := modify fun w => { w with store := w.store.remove p }
  readLine := modifyGet fun w =>
    let (line, input) := splitLine w.input
    (⟨line.toArray⟩, { w with input })
  print s := modify fun w => { w with output := w.output ++ s }
  prompt s := modify fun w => { w with prompts := w.prompts ++ s }
  log level message fields := modify fun w =>
    { w with log := w.log.push ⟨level, message, fields⟩ }
  currentDirectory := do return absolutePath (← get).store.workingDirectory
  interactive := pure false
  freshId := modifyGet fun w => (idText w.idsGiven, { w with idsGiven := w.idsGiven + 1 })
  now := do return (← get).time

end World

end SimStudio
