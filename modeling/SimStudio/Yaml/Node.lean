import SimStudio.Yaml.Token

/-!
# Nodes of a YAML Document

The tree that a document describes: scalars, sequences and mappings, any of
which may carry an anchor and a tag, and aliases that refer to anchors.

Nodes are generic in what names an anchor. As a text is read that is a name.
A name may be given again later, and an alias means the last node so named
before it, so the reference is settled in one walk through the document in
the order of its text. That walk hands out a number to each anchor, namely how
many different names have been seen before; where a name is given again, that
number is also the one of the next new name. A number stands for the last node
that carries it. This is how a repeated name can capture an alias to it, and it
makes no difference as long as no name is repeated.

## Main definitions

* `Yaml.Props`: The anchor and the tag of a node.
* `Yaml.Node`: A node.
* `Yaml.Node.link`: Settle the references of a node.
* `Yaml.Document`: A node with settled references and what they refer to.
-/

namespace SimStudio

namespace Yaml

/-- The anchor and the tag of a node. -/
structure Props (R : Type) where
  anchor : Option R
  tag : Option String
  deriving DecidableEq, Inhabited

/-- A node of a document, with anchors named by `R`. -/
inductive Node (R : Type)
  | alias (target : R)
  | scalar (props : Props R) (style : ScalarStyle) (text : String)
  | sequence (props : Props R) (items : List (Node R))
  | mapping (props : Props R) (entries : List (Node R × Node R))
  deriving Inhabited

namespace Node

variable {R : Type}

/-- The scalar without text that stands where a node is left out. -/
def missing : Node R := .scalar ⟨none, none⟩ .plain ""

mutual

/-- How many lexical events the node takes: one for each scalar and alias, and
    two for each collection. -/
def events : Node R → Nat
  | .alias _ => 1
  | .scalar .. => 1
  | .sequence _ items => 2 + eventsOfItems items
  | .mapping _ entries => 2 + eventsOfEntries entries

/-- The events of the items of a sequence. -/
def eventsOfItems : List (Node R) → Nat
  | [] => 0
  | n :: rest => n.events + eventsOfItems rest

/-- The events of the entries of a mapping. -/
def eventsOfEntries : List (Node R × Node R) → Nat
  | [] => 0
  | (k, v) :: rest => k.events + v.events + eventsOfEntries rest

end

/-- The names given so far, each once, with the number it stands for. -/
abbrev Names := List (String × Nat)

/-- Give a name to the node at hand. -/
def nameNext (names : Names) (name : String) : Names × Nat :=
  let number := names.length
  if names.any (·.1 == name) then
    (names.map fun (n, i) => if n == name then (n, number) else (n, i), number)
  else ((name, number) :: names, number)

/-- Settle the anchor of a node, if it has one. -/
def linkProps (names : Names) (p : Props String) : Names × Props Nat :=
  match p.anchor with
  | none => (names, ⟨none, p.tag⟩)
  | some name =>
      let (names, number) := nameNext names name
      (names, ⟨some number, p.tag⟩)

mutual

/-- Settle the references of a node; nothing if it refers to a name that has
    not been given before. -/
def link (names : Names) : Node String → Option (Names × Node Nat)
  | .alias name => (names.lookup name).map fun i => (names, .alias i)
  | .scalar props style text =>
      let (names, props) := linkProps names props
      some (names, .scalar props style text)
  | .sequence props items =>
      let (names, props) := linkProps names props
      (linkItems names items).map fun (names, items) => (names, .sequence props items)
  | .mapping props entries =>
      let (names, props) := linkProps names props
      (linkEntries names entries).map fun (names, entries) => (names, .mapping props entries)

/-- Settle the references of the items of a sequence. -/
def linkItems (names : Names) : List (Node String) → Option (Names × List (Node Nat))
  | [] => some (names, [])
  | n :: rest =>
      match link names n with
      | none => none
      | some (names, n) => (linkItems names rest).map fun (names, rest) => (names, n :: rest)

/-- Settle the references of the entries of a mapping. -/
def linkEntries (names : Names) :
    List (Node String × Node String) → Option (Names × List (Node Nat × Node Nat))
  | [] => some (names, [])
  | (k, v) :: rest =>
      match link names k with
      | none => none
      | some (names, k) =>
          match link names v with
          | none => none
          | some (names, v) =>
              (linkEntries names rest).map fun (names, rest) => (names, (k, v) :: rest)

end

/-- The node with its anchor's number in front of a list, if it has one. -/
def anchoredAt (props : Props Nat) (n : Node Nat) (later : List (Nat × Node Nat)) :
    List (Nat × Node Nat) :=
  match props.anchor with
  | none => later
  | some i => (i, n) :: later

mutual

/-- The nodes with an anchor, in the order of the text. -/
def anchored : Node Nat → List (Nat × Node Nat)
  | .alias _ => []
  | .scalar props style text => anchoredAt props (.scalar props style text) []
  | .sequence props items => anchoredAt props (.sequence props items) (anchoredItems items)
  | .mapping props entries => anchoredAt props (.mapping props entries) (anchoredEntries entries)

/-- The same among the items of a sequence. -/
def anchoredItems : List (Node Nat) → List (Nat × Node Nat)
  | [] => []
  | n :: rest => n.anchored ++ anchoredItems rest

/-- The same among the entries of a mapping. -/
def anchoredEntries : List (Node Nat × Node Nat) → List (Nat × Node Nat)
  | [] => []
  | (k, v) :: rest => k.anchored ++ (v.anchored ++ anchoredEntries rest)

end

end Node

/-- A document whose references are settled. -/
structure Document where
  root : Node Nat
  /-- The nodes with an anchor, the last in the text first. -/
  anchors : List (Nat × Node Nat)
  deriving Inhabited

namespace Document

/-- The document of a node, if all its aliases refer to something. -/
def ofNode? (n : Node String) : Option Document :=
  (n.link []).map fun (_, root) => ⟨root, root.anchored.reverse⟩

/-- The node that a number stands for. -/
def target? (d : Document) (number : Nat) : Option (Node Nat) := d.anchors.lookup number

end Document

end Yaml

end SimStudio
