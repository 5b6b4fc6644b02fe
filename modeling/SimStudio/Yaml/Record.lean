import SimStudio.Record
import SimStudio.Yaml.Node.Parse
import SimStudio.Yaml.Scalar

/-!
# Records in YAML

YAML as a format for records. A scalar is read as what its field calls for: as
text by its characters, however it is quoted, and as a number if it is plain.
Only where nothing is known about a value does the meaning of a plain scalar
decide, or a tag of the YAML core. A tag of the document's own says what
nobody here can answer, and the value cannot be read.

A list, map or record without items may be left out altogether, and so may an
optional value, or it may be written as one of the names of null.

Collections that are looked into may be nested in one another up to 128 deep.
Following a reference does not count as going deeper, since no reference leads
to another one.

## Main definitions

* `Yaml.Place`: A node of a document, with how much deeper it may go.
* `Yaml.scalarContent?`: What a scalar stands for where nothing is known.
* `Yaml.Document.json`, `Yaml.Document.content`: A node as a value.
* `Yaml.readText?`: Read a record out of a text.
-/

namespace SimStudio

namespace Yaml

/-- How deeply collections may be nested. -/
def depthLimit : Nat := 128

/-- The tags of the YAML core. -/
def coreTag (name : String) : String := "tag:yaml.org,2002:" ++ name

/-- An integer within 64 bits as content. -/
def intContent? (i : Int) : Option Content := (JsonNumber.ofInt? i).map fun _ => .int i

/-- Whether a tag is one of the document's own. -/
def isOwnTag (tag : Option String) : Bool := tag.any (·.startsWith "!")

/-- What a scalar stands for where nothing is known about it. -/
def scalarContent? (props : Props Nat) (style : ScalarStyle) (text : String) : Option Content :=
  let cs := text.toList
  match props.tag with
  | some tag =>
      if tag.startsWith "!" then none
      else if tag = coreTag "bool" then (bool? text).map .bool
      else if tag = coreTag "int" then (int? cs).bind intContent?
      else if tag = coreTag "float" then (float? cs).map .float
      else if tag = coreTag "null" then if isNullName text then some .null else none
      else some (.text text)
  | none =>
      if style = .plain then
        match meaning text with
        | .null => some .null
        | .bool b => some (.bool b)
        | .int i => intContent? i
        | .float x => some (.float x)
        | .text => some (.text text)
      else some (.text text)

/-- A scalar as a JSON value, in which a float that is not finite is null. -/
def scalarJson? (props : Props Nat) (style : ScalarStyle) (text : String) : Option Json :=
  (scalarContent? props style text).bind fun
    | .null => some .null
    | .bool b => some (.bool b)
    | .int i => (JsonNumber.ofInt? i).map .number
    | .float x => some ((JsonNumber.ofBinary64? x).elim .null .number)
    | .text s => some (.text s)
    | .list _ => none
    | .map _ => none

/-- A node of a document, with how much deeper it may go. A document without
    content has no node. -/
structure Place where
  document : Document
  node : Option (Node Nat)
  depth : Nat
  deriving Inhabited

namespace Document

/-- A node, or the one that it refers to. -/
def follow (d : Document) : Node Nat → Reading (Node Nat)
  | .alias i => do
      Reading.spend
      .ofOption (d.target? i)
  | n => pure n

/-- The text of a scalar. -/
def text (d : Document) (n : Node Nat) : Reading String := do
  match ← d.follow n with
  | .scalar _ _ text => pure text
  | _ => failure

/-- A node as a JSON value. -/
def json (d : Document) : (depth : Nat) → Node Nat → Reading Json
  | 0, n => do
      match ← d.follow n with
      | .scalar props style text => .ofOption (scalarJson? props style text)
      | _ => failure
  | depth + 1, n => do
      match ← d.follow n with
      | .scalar props style text => .ofOption (scalarJson? props style text)
      | .sequence props items =>
          if isOwnTag props.tag then failure
          else .array <$> items.mapM (json d depth)
      | .mapping props entries =>
          if isOwnTag props.tag then failure
          else do
            let members ← entries.mapM fun (k, v) => do
              let k ← d.text k
              let v ← json d depth v
              pure (k, v)
            pure (Json.ofMembers members)
      | .alias _ => failure

/-- A node as content. -/
def content (d : Document) : (depth : Nat) → Node Nat → Reading Content
  | 0, n => do
      match ← d.follow n with
      | .scalar props style text => .ofOption (scalarContent? props style text)
      | _ => failure
  | depth + 1, n => do
      match ← d.follow n with
      | .scalar props style text => .ofOption (scalarContent? props style text)
      | .sequence props items =>
          if isOwnTag props.tag then failure
          else .list <$> items.mapM (content d depth)
      | .mapping props entries =>
          if isOwnTag props.tag then failure
          else do
            let entries ← entries.mapM fun (k, v) => do
              let k ← content d depth k
              let v ← content d depth v
              pure (k, v)
            pure (.map entries)
      | .alias _ => failure

end Document

namespace Place

/-- The node at a place, or the one that it refers to; a place without a node
    has a scalar without text. -/
def resolve (p : Place) : Reading (Node Nat) := p.document.follow (p.node.getD .missing)

/-- The place of a part of a collection here. -/
def part (p : Place) (n : Node Nat) : Place := ⟨p.document, some n, p.depth - 1⟩

/-- Whether a plain scalar, or one with the tag of integers, stands here. -/
def isNumeric (props : Props Nat) (style : ScalarStyle) : Bool :=
  match props.tag with
  | none => style == .plain
  | some tag => style == .plain || (style == .literal && tag == coreTag "int")

/-- The characters of a scalar that may be a number. -/
def numeric (p : Place) : Reading (List Char) := do
  match ← p.resolve with
  | .scalar props style text => if isNumeric props style then pure text.toList else failure
  | _ => failure

/-- The places of the items of a sequence; a scalar without text has none. -/
def items (p : Place) : Reading (List Place) := do
  match ← p.resolve with
  | .sequence _ items => if p.depth = 0 then failure else pure (items.map p.part)
  | .scalar _ .plain "" => pure []
  | _ => failure

/-- The places of the members of a mapping; a scalar without text has none. -/
def members (p : Place) : Reading (List (String × Place)) := do
  match ← p.resolve with
  | .mapping _ entries =>
      if p.depth = 0 then failure
      else entries.mapM fun (k, v) => do
        let k ← p.document.text k
        pure (k, p.part v)
  | .scalar _ .plain "" => pure []
  | _ => failure

/-- Whether a plain scalar says that nothing stands here; a tag of null on any
    other scalar cannot be read. -/
def saysNothing? (props : Props Nat) (text : String) : Option Bool :=
  match props.tag with
  | none => some (text.isEmpty || isNullName text)
  | some tag =>
      if tag = coreTag "null" then if isNullName text then some true else none else some false

/-- Whether nothing is said to stand here; otherwise where something does. -/
def optional (p : Place) : Reading (Option Place) := do
  match ← p.resolve with
  | .scalar props .plain text => do
      if ← .ofOption (saysNothing? props text) then pure none
      else pure (some { p with node := some (.scalar props .plain text) })
  | n => pure (some { p with node := some n })

/-- Gather the members of a mapping, of which the one with the given name is
    read as text and all others as content. -/
def untag (name : String) (p : Place) :
    List (Node Nat × Node Nat) → Reading (List String × List (Content × Content))
  | [] => pure ([], [])
  | (k, v) :: rest => do
      let key ← p.document.content (p.depth - 1) k
      match key with
      | .text s =>
          if s = name then do
            let tag ← p.document.text v
            let (tags, entries) ← untag name p rest
            pure (tag :: tags, entries)
          else do
            let value ← p.document.content (p.depth - 1) v
            let (tags, entries) ← untag name p rest
            pure (tags, (.text s, value) :: entries)
      | key => do
          let value ← p.document.content (p.depth - 1) v
          let (tags, entries) ← untag name p rest
          pure (tags, (key, value) :: entries)

/-- The tag of a mapping under its name, or of a sequence as its first item,
    and the content of the rest. -/
def tagged (name : String) (p : Place) : Reading (String × Content) := do
  match ← p.resolve with
  | .mapping props entries =>
      if isOwnTag props.tag || p.depth = 0 then failure
      else do
        match ← p.untag name entries with
        | ([tag], entries) => pure (tag, .map entries)
        | _ => failure
  | .sequence props (tag :: rest) =>
      if isOwnTag props.tag || p.depth = 0 then failure
      else do
        let tag ← p.document.text tag
        let rest ← rest.mapM (p.document.content (p.depth - 1))
        pure (tag, .list rest)
  | _ => failure

/-- The name of the choice that stands here: the text of a scalar, or a tag of
    the document's own on a scalar that says nothing. -/
def choice (p : Place) : Reading String := do
  match p.node with
  | none => failure
  | some _ =>
      match ← p.resolve with
      | .scalar props style text =>
          match props.tag with
          | some tag =>
              if tag.startsWith "!" then
                if style = .plain ∧ (text = "" ∨ isNullName text) then pure (tag.drop 1).toString
                else failure
              else pure text
          | none => pure text
      | _ => failure

instance : Format Place where
  text p := do
    match p.node with
    | some n => p.document.text n
    | none => failure
  natural bound p := do
    let cs ← p.numeric
    .ofOption (unsigned? bound cs)
  integer p := do
    let cs ← p.numeric
    .ofOption (signed? cs)
  optional p := p.optional
  items p := p.items
  members p := p.members
  fields names p := do
    let members ← p.members
    .ofOption (Fields.select? names members)
  value p := p.document.json p.depth (p.node.getD .missing)
  tagged name p := p.tagged name

end Place

/-- How many references may be followed for each lexical event of a document. -/
def referencesPerEvent : Nat := 100

/-- Read a record out of a text. -/
def readText? {α : Type} (read : Place → Reading α) (text : String) : Option α := do
  let (record, _) ← match ← document? text with
    | some d => read ⟨d, some d.root, depthLimit⟩ (referencesPerEvent * d.root.events)
    | none => read ⟨⟨.missing, []⟩, none, depthLimit⟩ 0
  pure record

end Yaml

end SimStudio
