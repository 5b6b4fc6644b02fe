import SimStudio.Yaml.Node
import SimStudio.Yaml.Token.Scan

/-!
# From Tokens to Nodes

The grammar of YAML over its tokens, by recursive descent.

Wherever a node is left out, an empty plain scalar stands for it. In a block
mapping a sequence may stand in the column of its key; such a sequence has no
start and end of its own, only entries. In a flow sequence an item that begins
with a question mark, or that turned out to be a key, is a mapping of one
entry. There, if the key is left out, the token behind the question mark is
passed over, whatever it is.

The functions recurse on fuel. Every call but the first consumes a token or is
followed by one that does, so that twice the number of tokens is enough.

## Main definitions

* `Yaml.Directives`: The meaning of tag handles in a document.
* `Yaml.Grammar.node`: Read a node.
* `Yaml.document?`: Read a text that holds one document at most.
-/

namespace SimStudio

namespace Yaml

/-- The tag handles that a document declares, with what they stand for. -/
structure Directives where
  version : Bool
  handles : List (String × String)
  deriving Inhabited

namespace Directives

/-- The meaning of handles where a document declares none. -/
def standard : List (String × String) := [("!", "!"), ("!!", "tag:yaml.org,2002:")]

/-- Read the directives at the top of a document. There may be one version,
    which must be 1.1 or 1.2, and one declaration of each handle. -/
def parse (d : Directives) : List Token → Option (Directives × List Token)
  | .version major minor :: ts =>
      if d.version || major ≠ 1 || (minor ≠ 1 && minor ≠ 2) then none
      else parse { d with version := true } ts
  | .handle name address :: ts =>
      if (d.handles.lookup name).isSome then none
      else parse { d with handles := d.handles ++ [(name, address)] } ts
  | ts => some (d, ts)

/-- The tag that a handle and a rest stand for. -/
def tag? (d : Directives) (handle rest : String) : Option String :=
  if handle.isEmpty then some rest
  else ((d.handles ++ standard).lookup handle).map (· ++ rest)

end Directives

namespace Grammar

/-- Read the anchor and the tag of a node, in either order. -/
def props (d : Directives) : List Token → Option (Props String × List Token)
  | .anchor a :: .tag h r :: ts => (d.tag? h r).map fun t => (⟨some a, some t⟩, ts)
  | .tag h r :: .anchor a :: ts => (d.tag? h r).map fun t => (⟨some a, some t⟩, ts)
  | .anchor a :: ts => some (⟨some a, none⟩, ts)
  | .tag h r :: ts => (d.tag? h r).map fun t => (⟨none, some t⟩, ts)
  | ts => some (⟨none, none⟩, ts)

/-- The properties of a scalar; the tag `!` says nothing about one. -/
def scalarProps (p : Props String) : Props String :=
  if p.tag = some "!" then { p with tag := none } else p

/-- Whether a token ends a node in a block collection that has been left out. -/
def endsBlockNode : List Token → Bool
  | .key :: _ => true
  | .value :: _ => true
  | .blockEnd :: _ => true
  | _ => false

/-- Whether an entry in a block sequence is followed by nothing of its own. -/
def endsBlockEntry : List Token → Bool
  | .blockEntry :: _ => true
  | .blockEnd :: _ => true
  | _ => false

/-- Whether a token ends a node in a flow collection. -/
def endsFlowNode (close : Token) : List Token → Bool
  | t :: _ => t == .flowEntry || t == close
  | [] => false

mutual

/-- Read a node. `block` allows block collections, and `indentless` a sequence
    without a start of its own. -/
def node (d : Directives) : (fuel : Nat) → (block indentless : Bool) → List Token →
    Option (Node String × List Token)
  | 0, _, _, _ => none
  | _ + 1, _, _, .alias name :: ts => some (.alias name, ts)
  | fuel + 1, block, indentless, ts => do
      let (p, ts) ← props d ts
      match ts with
      | .scalar style text :: ts => pure (.scalar (scalarProps p) style text, ts)
      | .flowSequence :: ts => do
          let (items, ts) ← flowItems d fuel true ts
          pure (.sequence p items, ts)
      | .flowMapping :: ts => do
          let (entries, ts) ← flowEntries d fuel true ts
          pure (.mapping p entries, ts)
      | ts =>
          match indentless, block, ts with
          | true, _, .blockEntry :: _ => do
              let (items, ts) ← indentlessItems d fuel ts
              pure (.sequence p items, ts)
          | _, true, .blockSequence :: ts => do
              let (items, ts) ← blockItems d fuel ts
              pure (.sequence p items, ts)
          | _, true, .blockMapping :: ts => do
              let (entries, ts) ← blockEntries d fuel ts
              pure (.mapping p entries, ts)
          | _, _, ts =>
              if p.anchor.isSome || p.tag.isSome then pure (.scalar p .plain "", ts) else none

/-- Read the items of a block sequence up to its end. -/
def blockItems (d : Directives) : (fuel : Nat) → List Token → Option (List (Node String) × List Token)
  | 0, _ => none
  | fuel + 1, .blockEntry :: ts => do
      let (item, ts) ←
        if endsBlockEntry ts then pure (.missing, ts) else node d fuel true false ts
      let (rest, ts) ← blockItems d fuel ts
      pure (item :: rest, ts)
  | _ + 1, .blockEnd :: ts => some ([], ts)
  | _ + 1, _ => none

/-- Read the items of a sequence that has no end of its own. -/
def indentlessItems (d : Directives) :
    (fuel : Nat) → List Token → Option (List (Node String) × List Token)
  | 0, _ => none
  | fuel + 1, .blockEntry :: ts => do
      let (item, ts) ←
        if endsBlockEntry ts || endsBlockNode ts then pure (.missing, ts)
        else node d fuel true false ts
      let (rest, ts) ← indentlessItems d fuel ts
      pure (item :: rest, ts)
  | _ + 1, ts => some ([], ts)

/-- Read the entries of a block mapping up to its end. -/
def blockEntries (d : Directives) :
    (fuel : Nat) → List Token → Option (List (Node String × Node String) × List Token)
  | 0, _ => none
  | fuel + 1, .key :: ts => do
      let (k, ts) ← if endsBlockNode ts then pure (.missing, ts) else node d fuel true true ts
      let (v, ts) ←
        match ts with
        | .value :: ts => if endsBlockNode ts then pure (.missing, ts) else node d fuel true true ts
        | ts => pure (.missing, ts)
      let (rest, ts) ← blockEntries d fuel ts
      pure ((k, v) :: rest, ts)
  | _ + 1, .blockEnd :: ts => some ([], ts)
  | _ + 1, _ => none

/-- Read the items of a flow sequence up to its end. -/
def flowItems (d : Directives) :
    (fuel : Nat) → (first : Bool) → List Token → Option (List (Node String) × List Token)
  | 0, _, _ => none
  | _ + 1, _, .flowSequenceEnd :: ts => some ([], ts)
  | fuel + 1, first, ts => do
      let ts ← if first then pure ts else
        match ts with
        | .flowEntry :: ts => pure ts
        | _ => none
      match ts with
      | .flowSequenceEnd :: ts => pure ([], ts)
      | .key :: ts => do
          let (k, ts) ←
            match ts with
            | .value :: ts => pure (.missing, ts)
            | .flowEntry :: ts => pure (.missing, ts)
            | .flowSequenceEnd :: ts => pure (.missing, ts)
            | ts => node d fuel false false ts
          let (v, ts) ←
            match ts with
            | .value :: ts =>
                if endsFlowNode .flowSequenceEnd ts then pure (.missing, ts)
                else node d fuel false false ts
            | ts => pure (.missing, ts)
          let (rest, ts) ← flowItems d fuel false ts
          pure (.mapping ⟨none, none⟩ [(k, v)] :: rest, ts)
      | ts => do
          let (item, ts) ← node d fuel false false ts
          let (rest, ts) ← flowItems d fuel false ts
          pure (item :: rest, ts)

/-- Read the entries of a flow mapping up to its end. -/
def flowEntries (d : Directives) :
    (fuel : Nat) → (first : Bool) → List Token →
      Option (List (Node String × Node String) × List Token)
  | 0, _, _ => none
  | _ + 1, _, .flowMappingEnd :: ts => some ([], ts)
  | fuel + 1, first, ts => do
      let ts ← if first then pure ts else
        match ts with
        | .flowEntry :: ts => pure ts
        | _ => none
      match ts with
      | .flowMappingEnd :: ts => pure ([], ts)
      | .key :: ts => do
          let (k, ts) ←
            if ts.head? = some .value || endsFlowNode .flowMappingEnd ts then pure (.missing, ts)
            else node d fuel false false ts
          let (v, ts) ←
            match ts with
            | .value :: ts =>
                if endsFlowNode .flowMappingEnd ts then pure (.missing, ts)
                else node d fuel false false ts
            | ts => pure (.missing, ts)
          let (rest, ts) ← flowEntries d fuel false ts
          pure ((k, v) :: rest, ts)
      | ts => do
          let (k, ts) ← node d fuel false false ts
          let (rest, ts) ← flowEntries d fuel false ts
          pure ((k, .missing) :: rest, ts)

end

/-- Whether the content of a document has been left out. -/
def endsDocument : List Token → Bool
  | .version .. :: _ => true
  | .handle .. :: _ => true
  | .documentStart :: _ => true
  | .documentEnd :: _ => true
  | .streamEnd :: _ => true
  | _ => false

/-- Read one document: its directives and the mark below them may be left out
    together. -/
def document (ts : List Token) : Option (Node String × List Token) := do
  let fuel := 2 * ts.length + 4
  match ts with
  | .version .. :: _ | .handle .. :: _ | .documentStart :: _ =>
      let (d, ts) ← Directives.parse ⟨false, []⟩ ts
      match ts with
      | .documentStart :: ts =>
          if endsDocument ts then pure (.missing, ts) else node d fuel true false ts
      | _ => none
  | ts => node ⟨false, []⟩ fuel true false ts

end Grammar

/-- Read a text that holds one document at most. The outer option is empty if
    the text cannot be read or holds several documents, the inner one if it
    holds none. -/
def document? (text : String) : Option (Option Document) := do
  let ts ← tokens? text
  match ts with
  | [.streamEnd] => pure none
  | ts => do
      let (root, ts) ← Grammar.document ts
      if ts.dropWhile (· == .documentEnd) = [.streamEnd] then
        let d ← Document.ofNode? root
        pure (some d)
      else none

end Yaml

end SimStudio
