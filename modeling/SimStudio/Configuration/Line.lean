/-!
# Lines of a Configuration

A compiled configuration is a list of lines. A line is told by its level, which
stands for two columns each, and by what it is: an entry that begins with a
key, a line of text, or an empty line.

An entry may be the first of an item in a list. Then the mark of the item
stands in front of it, two columns to the left, so that the key keeps its
column. Only entries can carry a mark: a line of text may look as it likes, it
is never taken for one.

## Main definitions

* `Line`: A line.
* `Line.render`: Its characters, without the line end.
* `markFirst`: Make a block of lines an item of a list.
* `renderLines`: The text of several lines.
-/

namespace SimStudio

/-- A line of a configuration. -/
inductive Line
  /-- A key with what follows it; `item` says that it begins an item. -/
  | entry (level : Nat) (item : Bool) (text : String)
  /-- A line of text. -/
  | content (level : Nat) (text : String)
  | blank
  deriving DecidableEq, Inhabited

namespace Line

/-- The columns of a level. -/
def indentation (level : Nat) : String := String.ofList (List.replicate (2 * level) ' ')

/-- The characters of a line, without its end. -/
def render : Line → String
  | entry level true text => indentation (level - 1) ++ "- " ++ text
  | entry level false text => indentation level ++ text
  | content level text => indentation level ++ text
  | blank => ""

/-- The line as the first of an item. -/
def mark : Line → Line
  | entry level _ text => entry level true text
  | line => line

end Line

/-- A block of lines as an item of a list. -/
def markFirst : List Line → List Line
  | [] => []
  | line :: rest => line.mark :: rest

/-- The text of several lines, each with its end. -/
def renderLines (lines : List Line) : String :=
  String.join (lines.map fun line => line.render ++ "\n")

end SimStudio
