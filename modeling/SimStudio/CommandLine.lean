import SimStudio.Command
import SimStudio.CommandLine.Grammar

/-!
# Command Lines

The options and operands of the program's commands, and what they ask for. Two
options belong to the program as a whole and may stand before the name of the
command or behind it, where they count for more.

## Main definitions

* `Invocation`: What a command line asks for.
* `Invocation.ofWords`: Read a command line.
-/

namespace SimStudio

namespace CommandLine

/-- What a command line asks for. -/
structure Invocation where
  settingsFile : Option Path
  verbosity : Nat
  command : Command
  deriving Inhabited

/-- Why a command line is not carried out, for the user. -/
inductive Reply
  | misuse
  | help
  /-- The version, with the name of the program or command. -/
  | version (name : String)
  deriving DecidableEq, Inhabited

/-- The name of the program. -/
def programName : String := "simcfg"

/-- The version of the program. -/
def programVersion : String := "0.1.0"

/-- A reply to a refusal. -/
def Reply.ofRefusal (name : String) : Refusal → Reply
  | .misuse => misuse
  | .help => help
  | .version => version name

/-- Any text. -/
def anyText (_ : String) : Bool := true

/-- A path. -/
def isPath (s : String) : Bool := !s.isEmpty

/-- An integer in a range. -/
def integerIn? (least greatest : Int) (s : String) : Option Int :=
  (Digits.integer? s.toList).bind fun i => if least ≤ i ∧ i ≤ greatest then some i else none

/-- A word of 32 bits. -/
def word? (s : String) : Option UInt32 :=
  (integerIn? 0 (2 ^ 32 - 1) s).map fun i => UInt32.ofNat i.toNat

/-- A port. -/
def port? (s : String) : Option UInt16 :=
  (integerIn? 0 (2 ^ 16 - 1) s).map fun i => UInt16.ofNat i.toNat

/-- A game id. -/
def gameId? (s : String) : Option Int64 := (Digits.integer? s.toList).map Int64.ofInt

/-- A number of characters. -/
def offset? (s : String) : Option Nat := Digits.natural? (2 ^ 64) s.toList

/-- Whether a kind of manager is the hybrid one. -/
def hybrid? : String → Option Bool
  | "turn-based" => some false
  | "hybrid" => some true
  | _ => none

/-- A test whether a text can be read. -/
def readable {α : Type} (read : String → Option α) (s : String) : Bool := (read s).isSome

/-- The options of the program as a whole. -/
def globalOptions : List OptionForm :=
  [⟨"config", none, .value isPath⟩, ⟨"verbose", some 'v', .counter⟩]

/-- An option with a text as its value. -/
def textOption (name : String) : OptionForm := ⟨name, none, .value anyText⟩

/-- An option with a path as its value. -/
def pathOption (name : String) : OptionForm := ⟨name, none, .value isPath⟩

/-- The option for the file that is written. -/
def outputOption : OptionForm := ⟨"output", some 'o', .value isPath⟩

/-- What the commands take. -/
def commandForms : List (String × Form) :=
  [("new",
      { options := globalOptions ++
          [⟨"description", some 'd', .value anyText⟩, ⟨"game-id", none, .value (readable gameId?)⟩,
            ⟨"manager", none, .value (readable hybrid?)⟩,
            ⟨"continuous-phases", none, .values (readable word?)⟩,
            ⟨"max-action-delay", none, .value (readable readBinary64?)⟩,
            ⟨"min-action-delay", none, .value (readable readBinary64?)⟩, outputOption]
        operands := [anyText] }),
    ("import", { options := globalOptions ++ [outputOption], operands := [isPath] }),
    ("export",
      { options := globalOptions ++
          [⟨"stdout", none, .flag⟩, pathOption "save-as",
            ⟨"save-mode", none, .value (readable SaveMode.ofName?)⟩, pathOption "output-dir",
            textOption "hostname", ⟨"port", none, .value (readable port?)⟩, textOption "path"]
        operands := [isPath] }),
    ("insert",
      { options := globalOptions ++
          [⟨"role", none, .value (readable word?)⟩, textOption "slot", textOption "meta",
            textOption "public", textOption "private", textOption "partial", textOption "text",
            ⟨"start", none, .value (readable offset?)⟩, ⟨"end", none, .value (readable offset?)⟩]
        operands := [isPath] }),
    ("vars", { options := globalOptions, operands := [isPath] }),
    ("token",
      { options := globalOptions, operands := [readable StateNamespace.ofName?, anyText] }),
    ("filename", { options := globalOptions, operands := [anyText] })]

/-- What the program itself takes. -/
def programForm : Form :=
  { options := globalOptions
    operands := []
    commands := commandForms.map Prod.fst ++ ["help"] }

/-- A path that was given. -/
def Given.path? (g : Given) (name : String) : Option Path := (g.value? name).map Path.mk

/-- What a new project is to be. -/
def newRequest (g : Given) (name : String) : NewRequest :=
  { name
    description := g.value? "description"
    gameId := (g.value? "game-id").bind gameId?
    hybrid := ((g.value? "manager").bind hybrid?).getD false
    continuousPhases := (g.values "continuous-phases").filterMap word?
    maxDelay := ((g.value? "max-action-delay").bind readBinary64?).getD .zero
    minDelay := ((g.value? "min-action-delay").bind readBinary64?).getD .zero
    output := g.path? "output" }

/-- How a project is to be exported; an output and a place exclude each other. -/
def exportRequest? (g : Given) (project : String) : Option ExportRequest :=
  if g.has "stdout" && g.has "save-as" then none
  else
    some
      { project := ⟨project⟩
        toOutput := g.has "stdout"
        saveAs := g.path? "save-as"
        saveMode := (g.value? "save-mode").bind SaveMode.ofName?
        outputDir := g.path? "output-dir"
        hostname := g.value? "hostname"
        port := (g.value? "port").bind port?
        path := g.value? "path" }

/-- What is to be inserted. -/
def insertions (g : Given) : List Insertion :=
  ((g.value? "meta").map (Insertion.field .metaInfo)).toList ++
    ((g.value? "public").map (Insertion.field .publicInfo)).toList ++
    ((g.value? "private").map (Insertion.field .privateInfo)).toList ++
    ((g.value? "partial").map Insertion.inclusion).toList ++
    ((g.value? "text").map Insertion.text).toList

/-- Where something is to be inserted; it has to be one thing. -/
def insertRequest? (g : Given) (project : String) : Option InsertRequest := do
  let role ← (g.value? "role").bind word?
  let slot ← g.value? "slot"
  match insertions g with
  | [insertion] =>
      pure
        { project := ⟨project⟩
          role
          slot
          insertion
          first := (g.value? "start").bind offset?
          last := (g.value? "end").bind offset? }
  | _ => none

/-- What a command with its options and operands asks for. -/
def command? (name : String) (g : Given) : Option Command :=
  match name, g.operands with
  | "new", [project] => some (.new (newRequest g project))
  | "import", [file] => some (.importProject ⟨⟨file⟩, g.path? "output"⟩)
  | "export", [project] => (exportRequest? g project).map .exportProject
  | "insert", [project] => (insertRequest? g project).map .insert
  | "vars", [project] => some (.listReferences ⟨project⟩)
  | "token", [space, field] =>
      (StateNamespace.ofName? space).map fun space => .showToken space field
  | "filename", [project] => some (.showFilename project)
  | _, _ => none

/-- An option of the program as a whole: behind the command it counts for more. -/
def Given.orOuter (inner outer : Given) (name : String) : Given :=
  if inner.has name then inner else outer

namespace Invocation

/-- What a command and what was given before and behind its name ask for. -/
def of? (name : String) (outer inner : Given) : Option Invocation := do
  let command ← command? name inner
  pure
    { settingsFile := (inner.orOuter outer "config").path? "config"
      verbosity := (inner.orOuter outer "verbose").count "verbose"
      command }

/-- Read a command line. -/
def ofWords (words : List String) : Except Reply Invocation := do
  let (outer, below) ← (programForm.parse {} words).mapError (Reply.ofRefusal programName)
  match below with
  | none => .error .misuse
  | some (name, words) =>
      match commandForms.lookup name with
      | none => .error .misuse
      | some form => do
          let refuse := Reply.ofRefusal (programName ++ "-" ++ name)
          let (inner, _) ← (form.parse {} words).mapError refuse
          let inner ← (form.finish inner).mapError refuse
          let outer ← (programForm.finish outer).mapError refuse
          match of? name outer inner with
          | some invocation => .ok invocation
          | none => .error .misuse

end Invocation

end CommandLine

end SimStudio
