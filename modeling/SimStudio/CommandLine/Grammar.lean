import SimStudio.Text.Split

/-!
# The Grammar of Command Lines

How words on a command line become options and operands, for any set of
options.

An option has a long name behind two hyphens, and may have a letter behind one;
letters without a value can share a hyphen. A value follows as the next word,
or in the same word behind an equals sign, and directly behind a letter. A word
that begins with a hyphen is never taken for the value of the word before it,
a single hyphen apart. Behind two hyphens alone all words are operands. An
option may be given once, unless it is one that counts or gathers.

Words are judged from left to right, each as soon as the next one begins, since
a request for help or for the version cuts the rest short.

## Main definitions

* `OptionForm`: An option.
* `Given`: What was given.
* `Refusal`: Why a command line is not carried out.
* `Form.parse`, `Form.finish`: Read the words of a command line.
-/

namespace SimStudio

namespace CommandLine

/-- What an option takes. -/
inductive OptionKind
  /-- Nothing; it may be given once. -/
  | flag
  /-- Nothing; it counts. -/
  | counter
  /-- One value that passes a test. -/
  | value (accepts : String → Bool)
  /-- Values with commas between them, each of which passes a test; given again,
      it gathers more. -/
  | values (accepts : String → Bool)

/-- An option. -/
structure OptionForm where
  name : String
  letter : Option Char := none
  kind : OptionKind

/-- What a command takes. -/
structure Form where
  options : List OptionForm
  /-- The tests for its operands, of which none may be missing. -/
  operands : List (String → Bool)
  /-- The names of commands below it. -/
  commands : List String := []

/-- What was given: options with their values, in the order in which they came,
    and operands. -/
structure Given where
  options : List (String × List String) := []
  operands : List String := []
  deriving Inhabited

/-- Why a command line is not carried out. -/
inductive Refusal
  | misuse
  | help
  | version
  deriving DecidableEq, Inhabited

namespace Given

/-- How many times an option was given. -/
def count (g : Given) (name : String) : Nat := g.options.countP (·.1 == name)

/-- Whether an option was given. -/
def has (g : Given) (name : String) : Bool := g.options.any (·.1 == name)

/-- The values of an option. -/
def values (g : Given) (name : String) : List String :=
  g.options.flatMap fun o => if o.1 = name then o.2 else []

/-- The value of an option. -/
def value? (g : Given) (name : String) : Option String := (g.values name).head?

end Given

/-- A word at a hyphen, or none. -/
inductive Word
  /-- A long name, perhaps with a value. -/
  | long (name : String) (value : Option String)
  /-- Letters, perhaps with a value. -/
  | letters (cs : List Char)
  /-- Two hyphens. -/
  | escape
  | plain (text : String)
  deriving DecidableEq, Inhabited

/-- What stands before and behind the first equals sign. -/
def splitEquals (cs : List Char) : List Char × Option (List Char) :=
  match cs.dropWhile (· != '=') with
  | _ :: value => (cs.takeWhile (· != '='), some value)
  | [] => (cs, none)

/-- What kind of word a text is. -/
def Word.ofText (text : String) : Word :=
  match text.toList with
  | ['-', '-'] => escape
  | '-' :: '-' :: cs =>
      let (name, value) := splitEquals cs
      long (String.ofList name) (value.map String.ofList)
  | '-' :: c :: cs => letters (c :: cs)
  | _ => plain text

/-- How far a command line has been read. -/
structure Progress where
  given : Given := {}
  /-- An option that takes a value, and the value if it has come. -/
  pending : Option (OptionForm × Option String) := none
  /-- Whether two hyphens have come. -/
  escaped : Bool := false

namespace Form

/-- The values that one text makes for an option. -/
def valuesOf (o : OptionForm) (text : String) : Except Refusal (List String) :=
  match o.kind with
  | .value accepts => if accepts text then .ok [text] else .error .misuse
  | .values accepts =>
      let texts := (Text.split ',' text.toList).map String.ofList
      if texts.all accepts then .ok texts else .error .misuse
  | _ => .error .misuse

/-- Whether an option may be given again. -/
def isRepeatable (o : OptionForm) : Bool :=
  match o.kind with
  | .counter => true
  | .values _ => true
  | _ => false

/-- Note that an option was given. -/
def note (g : Given) (o : OptionForm) (values : List String) : Except Refusal Given :=
  if g.has o.name && !isRepeatable o then .error .misuse
  else .ok { g with options := g.options ++ [(o.name, values)] }

/-- Finish the option that waits. -/
def settle (p : Progress) : Except Refusal Progress :=
  match p.pending with
  | none => .ok p
  | some (_, none) => .error .misuse
  | some (o, some text) => do
      let values ← valuesOf o text
      let given ← note p.given o values
      pure { p with given, pending := none }

/-- Take up an option that has a value with it or waits for one. -/
def takeUp (p : Progress) (o : OptionForm) (value : Option String) : Except Refusal Progress := do
  let p ← settle p
  match value with
  | some text => settle { p with pending := some (o, some text) }
  | none => pure { p with pending := some (o, none) }

/-- Note an option that takes nothing. -/
def noteBare (p : Progress) (o : OptionForm) : Except Refusal Progress := do
  let p ← settle p
  let given ← note p.given o []
  pure { p with given }

/-- Whether an option takes a value. -/
def takesValue (o : OptionForm) : Bool :=
  match o.kind with
  | .value _ => true
  | .values _ => true
  | _ => false

/-- Answer a request that cuts the rest short. -/
def cutShort (p : Progress) (r : Refusal) : Except Refusal Progress := do
  let _ ← settle p
  .error r

/-- Read a word with a long name. -/
def readLong (form : Form) (p : Progress) (name : String) (value : Option String) :
    Except Refusal Progress :=
  match form.options.find? (·.name == name) with
  | some o =>
      if takesValue o then takeUp p o value
      else if value.isSome then .error .misuse
      else noteBare p o
  | none =>
      if value.isSome then .error .misuse
      else if name = "help" then cutShort p .help
      else if name = "version" then cutShort p .version
      else .error .misuse

/-- The value in the same word as a letter. -/
def attached : List Char → Option String
  | [] => none
  | '=' :: cs => some (String.ofList cs)
  | cs => some (String.ofList cs)

/-- Read letters behind a hyphen. -/
def readLetters (form : Form) (p : Progress) : List Char → Except Refusal Progress
  | [] => .ok p
  | c :: cs =>
      match form.options.find? (·.letter == some c) with
      | some o =>
          if takesValue o then takeUp p o (attached cs)
          else do
            let p ← noteBare p o
            readLetters form p cs
      | none =>
          if c = 'h' then cutShort p .help
          else if c = 'V' then cutShort p .version
          else .error .misuse

/-- Read an operand. -/
def readOperand (form : Form) (p : Progress) (text : String) : Except Refusal Progress := do
  let p ← settle p
  match form.operands[p.given.operands.length]? with
  | some accepts =>
      if accepts text then
        pure { p with given := { p.given with operands := p.given.operands ++ [text] } }
      else .error .misuse
  | none => .error .misuse

/-- What comes of the words, once all have been read or a command below has been
    named. -/
def finish (form : Form) (p : Progress) : Except Refusal Given := do
  let p ← settle p
  if p.given.operands.length = form.operands.length then pure p.given else .error .misuse

/-- Answer a request for help by the name of a command. -/
def refuseHelp (form : Form) : List String → Refusal
  | [] => .help
  | [name] => if form.commands.contains name then .help else .misuse
  | _ => .misuse

/-- Read the words of a command line, up to the name of a command below, which is
    reported with the words behind it. What waits then is not settled yet. -/
def parse (form : Form) (p : Progress) :
    List String → Except Refusal (Progress × Option (String × List String))
  | [] => .ok (p, none)
  | text :: rest =>
      let waits := match p.pending with
        | some (_, none) => true
        | _ => false
      if p.escaped then do
        let p ← readOperand form p text
        parse form p rest
      else if !waits && form.commands.contains text then
        if text = "help" then .error (refuseHelp form rest)
        else .ok (p, some (text, rest))
      else
        match Word.ofText text with
        | .escape => parse form { p with escaped := true } rest
        | .long name value => do
            let p ← readLong form p name value
            parse form p rest
        | .letters cs => do
            let p ← readLetters form p cs
            parse form p rest
        | .plain text =>
            match p.pending with
            | some (o, none) => parse form { p with pending := some (o, some text) } rest
            | _ => do
                let p ← readOperand form p text
                parse form p rest

end Form

end CommandLine

end SimStudio
