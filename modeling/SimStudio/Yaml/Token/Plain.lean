import SimStudio.Yaml.Token.Fold

/-!
# Plain Scalars

Scalars without quotes. Such a scalar ends where something else can begin: at
a colon with a gap behind it, at a comment, at a document mark, and inside a
flow collection at the marks of the collection. It may run over several lines
as long as these are indented deeper than the block it stands in.

## Main definitions

* `Yaml.endsPlain`: Whether a scalar ends before a character.
* `Yaml.clashesInFlow`: A colon that makes a flow collection unreadable.
* `Yaml.PlainScalar`: A scalar with the cursor behind it.
* `Yaml.scanPlain`: Read a plain scalar.
-/

namespace SimStudio

namespace Yaml

/-- The marks of flow collections. -/
def isFlowMark (c : Char) : Bool :=
  c == ',' || c == '[' || c == ']' || c == '{' || c == '}'

/-- Whether a plain scalar ends before the first of these characters. -/
def endsPlain (inFlow : Bool) : List Char → Bool
  | [] => true
  | c :: rest => (c == ':' && endsWord rest) || (inFlow && isFlowMark c)

/-- In a flow collection a colon directly before a mark is refused. -/
def clashesInFlow : List Char → Bool
  | ':' :: c :: _ => isFlowMark c || c == '?'
  | _ => false

/-- A plain scalar as read: its text, the cursor behind the gap that follows
    it, and whether a line ended in that gap. -/
structure PlainScalar where
  text : String
  cursor : Cursor
  endedLine : Bool
  deriving Inhabited

/-- Read a plain scalar. `indent` is the least column in which a further line
    of it may begin; inside flow collections there is none. -/
def scanPlain (inFlow : Bool) (indent : Int) :
    List Char → Position → Gap → List Char → Option PlainScalar
  | [], pos, gap, acc => some ⟨String.ofList acc.reverse, ⟨[], pos⟩, gap.endsLine⟩
  | '\r' :: '\n' :: cs, pos, gap, acc =>
      scanPlain inFlow indent cs (pos.newLine 2) (gap.addBreak '\n') acc
  | c :: cs, pos, gap, acc =>
      if isBreak c then
        scanPlain inFlow indent cs pos.newLine (gap.addBreak (normalBreak c)) acc
      else if isSpace c then
        if gap.endsLine && pos.column < indent && c == '\t' then none
        else scanPlain inFlow indent cs pos.advance (gap.addBlank c) acc
      else if (!inFlow && !gap.isNone && pos.column < indent) ||
          (pos.column = 0 && atDocumentMark (c :: cs)) ||
          (!gap.isNone && c == '#') then
        some ⟨String.ofList acc.reverse, ⟨c :: cs, pos⟩, gap.endsLine⟩
      else if inFlow && clashesInFlow (c :: cs) then none
      else if endsPlain inFlow (c :: cs) then
        some ⟨String.ofList acc.reverse, ⟨c :: cs, pos⟩, gap.endsLine⟩
      else scanPlain inFlow indent cs pos.advance .none (c :: (gap.text ++ acc))

end Yaml

end SimStudio
