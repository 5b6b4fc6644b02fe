import SimStudio.Configuration.Line
import SimStudio.Json.Text
import SimStudio.Text.Blank
import SimStudio.Text.Split

/-!
# Fields of a Configuration

How a key and its value are written. Texts are always quoted, so that no reader
takes them for something else. Prompts are written as literal blocks, line by
line, unless they hold what a block cannot carry; how a block ends is said in
its first line, so that not a line end is lost or added. Arbitrary values are
laid out by their shape, and whatever is null is left out together with its
key.

## Main definitions

* `quote`: A text in quotes.
* `keyText`: A key, in quotes unless it is an identifier.
* `quotedField`, `bareField`, `inlineField`, `heading`: Fields of one line.
* `proseField`: A prompt.
* `valueField`: An arbitrary value.
-/

namespace SimStudio

/-- Characters that some readers take for a line end or for the mark of a byte
    order. -/
def isHazard (c : Char) : Bool := c == '\u2028' || c == '\u2029' || c == '\ufeff'

/-- A character inside quotes. -/
def quotedChar (c : Char) : List Char :=
  match c with
  | '"' => ['\\', '"']
  | '\\' => ['\\', '\\']
  | '\n' => ['\\', 'n']
  | '\r' => ['\\', 'r']
  | '\t' => ['\\', 't']
  | c =>
      if Text.isControl c || isHazard c then '\\' :: 'u' :: Digits.padded 16 4 true c.toNat
      else [c]

/-- A text in quotes. -/
def quote (s : String) : String :=
  String.ofList ('"' :: (s.toList.flatMap quotedChar ++ ['"']))

/-- Whether a character can begin an identifier. -/
def isIdentifierStart (c : Char) : Bool := c.isAlpha || c == '_'

/-- Whether a text is an identifier: ASCII letters, digits and low lines, with no
    digit in front. -/
def isIdentifier (s : String) : Bool :=
  match s.toList with
  | [] => false
  | c :: cs => isIdentifierStart c && cs.all fun c => isIdentifierStart c || c.isDigit

/-- Whether a text is one of the words that do not stand for themselves, in any
    case of its letters. -/
def isReserved (s : String) : Bool :=
  let lowered := s.toList.map Char.toLower
  lowered == "null".toList || lowered == "true".toList || lowered == "false".toList

/-- A key, in quotes unless it is an identifier that stands for itself. -/
def keyText (key : String) : String :=
  if isIdentifier key && !isReserved key then key else quote key

/-- A key with lines of its own below it. -/
def heading (level : Nat) (key : String) : Line := .entry level false (keyText key ++ ":")

/-- A key with a value that is written as it is. -/
def bareField (level : Nat) (key value : String) : Line :=
  .entry level false (keyText key ++ ": " ++ value)

/-- A key with a text in quotes. -/
def quotedField (level : Nat) (key value : String) : Line := bareField level key (quote value)

/-- A key with a list of values on its line. -/
def inlineField (level : Nat) (key : String) (items : List String) : Line :=
  bareField level key ("[" ++ ", ".intercalate items ++ "]")

/-- Whether a block can carry a text: there are neither control characters in
    it, line feeds and tabs apart, nor hazards. -/
def isBlockSafe (cs : List Char) : Bool :=
  cs.all fun c => (!Text.isControl c || c == '\n' || c == '\t') && !isHazard c

/-- What a block says about the line ends behind its text: none, one, or all
    that follow. -/
def chomping : Nat → String
  | 0 => "-"
  | 1 => ""
  | _ => "+"

/-- What a block says about its depth: two columns, where the text itself begins
    with a space. -/
def depthMark (lines : List (List Char)) : String :=
  match lines.find? (fun line => !line.isEmpty) with
  | some (' ' :: _) => "2"
  | _ => ""

/-- A line of a block; an empty one is not indented. -/
def blockLine (level : Nat) (line : List Char) : Line :=
  if line.isEmpty then .blank else .content level (String.ofList line)

/-- A key with a text that is read as prose. -/
def proseField (level : Nat) (key text : String) : List Line :=
  let cs := text.toList
  let body := (cs.reverse.dropWhile (· == '\n')).reverse
  if body.isEmpty || !isBlockSafe cs then [quotedField level key text]
  else
    let trailing := cs.length - body.length
    let lines := Text.split '\n' body
    bareField level key ("|" ++ depthMark lines ++ chomping trailing) ::
      (lines.map (blockLine (level + 1)) ++ List.replicate (trailing - 1) .blank)

/-- Whether a value can stand in a list on one line. -/
def isInline : Json → Bool
  | .bool _ => true
  | .number _ => true
  | .text s => !s.toList.contains '\n'
  | _ => false

/-- A value that is no collection, as it stands in a list. -/
def scalarItem : Json → String
  | .text s => quote s
  | v => v.compact

/-- Whether all members of an object are null. -/
def allNull (members : List (String × Json)) : Bool := members.all (·.2.isNull)

mutual

/-- A key with an arbitrary value; a null leaves no line. -/
def valueField (level : Nat) (key : String) : Json → List Line
  | .null => []
  | .bool b => [bareField level key (Json.bool b).compact]
  | .number n => [bareField level key n.compact]
  | .text s => if s.toList.contains '\n' then proseField level key s else [quotedField level key s]
  | .array items =>
      if items.all isInline then [inlineField level key (items.map scalarItem)]
      else heading level key :: itemLines (level + 1) items
  | .object members =>
      if allNull members then [bareField level key "\x7b\x7d"]
      else heading level key :: memberLines (level + 1) members

/-- The items of an array, below its key. -/
def itemLines (level : Nat) : List Json → List Line
  | [] => []
  | v :: rest => itemBlock level v ++ itemLines level rest

/-- One item. An object with members is laid out by its fields; a collection in
    a list stands on one line as JSON, which readers of the configuration
    understand. -/
def itemBlock (level : Nat) : Json → List Line
  | .object members =>
      if allNull members then [.content level ("- " ++ (Json.object members).compact)]
      else markFirst (memberLines (level + 1) members)
  | .array items => [.content level ("- " ++ (Json.array items).compact)]
  | v => [.content level ("- " ++ scalarItem v)]

/-- The members of an object, below its key. -/
def memberLines (level : Nat) : List (String × Json) → List Line
  | [] => []
  | (key, v) :: rest => valueField level key v ++ memberLines level rest

end

end SimStudio
