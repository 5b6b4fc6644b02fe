import SimStudio.Proofs.Yaml.Readable
import SimStudio.Yaml.Node.Parse

/-!
# Written Trees Parsed

The document of a written tree: the same tree, without anchors and tags.

The grammar follows the tokens as the writer laid them out, and takes no more
steps than there are tokens, but for a list in the column of its key, whose
beginning and end show in no token of their own.

## Main definitions

* `Yaml.Tree.node`: A tree as a node of a document.
* `Yaml.Tree.Parsed`: The grammar makes this node of the tokens of a tree.
* `Yaml.Unlinked`: A node without anchors and references.

## Theorems

* `Yaml.Tree.parsed`: Every tree is parsed.
* `Yaml.document?_of_mapping`: A text whose tokens are parsed as a mapping.
* `Yaml.Tree.document?_write`: The document of a written mapping.
-/

namespace SimStudio

namespace Yaml

/-- A node without an anchor and a tag. -/
def bare {R : Type} : Props R := ⟨none, none⟩

namespace Tree

variable {R : Type}

mutual

/-- A tree as a node of a document. -/
def node : Tree → Node R
  | null => .scalar bare .plain "null"
  | bool true => .scalar bare .plain "true"
  | bool false => .scalar bare .plain "false"
  | int i => .scalar bare .plain (toString i)
  | float x => .scalar bare .plain (floatText x)
  | text s => .scalar bare (styleOf s) s
  | sequence items => .sequence bare (itemNodes items)
  | mapping entries => .mapping bare (entryNodes entries)

/-- The items of a list as nodes. -/
def itemNodes : List Tree → List (Node R)
  | [] => []
  | v :: rest => node v :: itemNodes rest

/-- The entries of a mapping as nodes. -/
def entryNodes : List (String × Tree) → List (Node R × Node R)
  | [] => []
  | (key, v) :: rest => (.scalar bare (styleOf key) key, node v) :: entryNodes rest

end

theorem node_word {v : Tree} {w : String} (h : v.word? = some w) :
    (v.node : Node R) = .scalar bare .plain w := by
  cases v with
  | null => cases h; rfl
  | bool b => cases b <;> cases h <;> rfl
  | int i => cases h; rfl
  | float x => cases h; rfl
  | text s => cases h
  | sequence items => cases h
  | mapping entries => cases h

theorem itemNodes_eq_map (items : List Tree) :
    (itemNodes items : List (Node R)) = items.map node := by
  induction items with
  | nil => rfl
  | cons v items ih => rw [itemNodes, List.map_cons, ih]

theorem entryNodes_eq_map (entries : List (String × Tree)) :
    (entryNodes entries : List (Node R × Node R)) =
      entries.map fun e => (.scalar bare (styleOf e.1) e.1, e.2.node) := by
  induction entries with
  | nil => rfl
  | cons e entries ih => rw [entryNodes, List.map_cons, ih]

end Tree

namespace Grammar

variable {d : Directives} {fuel : Nat} {block indentless : Bool} {ts ts' : List Token}

theorem node_scalar (style : ScalarStyle) (text : String) :
    node d (fuel + 1) block indentless (.scalar style text :: ts) =
      some (.scalar bare style text, ts) :=
  rfl

theorem node_flowSequence :
    node d (fuel + 2) block indentless (.flowSequence :: .flowSequenceEnd :: ts) =
      some (.sequence bare [], ts) :=
  rfl

theorem node_flowMapping :
    node d (fuel + 2) block indentless (.flowMapping :: .flowMappingEnd :: ts) =
      some (.mapping bare [], ts) :=
  rfl

theorem node_blockSequence {items : List (Node String)} (h : blockItems d fuel ts = some (items, ts')) :
    node d (fuel + 1) true indentless (.blockSequence :: ts) = some (.sequence bare items, ts') := by
  have hnode : node d (fuel + 1) true indentless (.blockSequence :: ts) =
      (blockItems d fuel ts).bind fun r => some (.sequence bare r.1, r.2) := by
    cases indentless <;> rfl
  rw [hnode, h]
  rfl

theorem node_blockMapping {entries : List (Node String × Node String)}
    (h : blockEntries d fuel ts = some (entries, ts')) :
    node d (fuel + 1) true indentless (.blockMapping :: ts) = some (.mapping bare entries, ts') := by
  have hnode : node d (fuel + 1) true indentless (.blockMapping :: ts) =
      (blockEntries d fuel ts).bind fun r => some (.mapping bare r.1, r.2) := by
    cases indentless <;> rfl
  rw [hnode, h]
  rfl

theorem node_indentless {items : List (Node String)}
    (h : indentlessItems d fuel (.blockEntry :: ts) = some (items, ts')) :
    node d (fuel + 1) block true (.blockEntry :: ts) = some (.sequence bare items, ts') := by
  have hnode : node d (fuel + 1) block true (.blockEntry :: ts) =
      (indentlessItems d fuel (.blockEntry :: ts)).bind fun r => some (.sequence bare r.1, r.2) :=
    rfl
  rw [hnode, h]
  rfl

theorem blockItems_cons {item : Node String} {items : List (Node String)} {ts'' : List Token}
    (hends : endsBlockEntry ts = false) (hitem : node d fuel true false ts = some (item, ts'))
    (hitems : blockItems d fuel ts' = some (items, ts'')) :
    blockItems d (fuel + 1) (.blockEntry :: ts) = some (item :: items, ts'') := by
  rw [blockItems, hends, if_neg Bool.false_ne_true, hitem, Option.bind_eq_bind, Option.bind_some]
  simp [hitems]

theorem indentlessItems_cons {item : Node String} {items : List (Node String)} {ts'' : List Token}
    (hends : endsBlockEntry ts = false) (hends' : endsBlockNode ts = false)
    (hitem : node d fuel true false ts = some (item, ts'))
    (hitems : indentlessItems d fuel ts' = some (items, ts'')) :
    indentlessItems d (fuel + 1) (.blockEntry :: ts) = some (item :: items, ts'') := by
  rw [indentlessItems, hends, hends', if_neg (by decide), hitem, Option.bind_eq_bind,
    Option.bind_some]
  simp [hitems]

theorem indentlessItems_nil (h : ts.head? ≠ some .blockEntry) :
    indentlessItems d (fuel + 1) ts = some ([], ts) := by
  rw [indentlessItems]
  rintro rest rfl
  exact h rfl

theorem blockEntries_cons {style : ScalarStyle} {key : String} {v : Node String}
    {entries : List (Node String × Node String)} {ts'' : List Token}
    (hends : endsBlockNode ts = false) (hv : node d (fuel + 1) true true ts = some (v, ts'))
    (hentries : blockEntries d (fuel + 1) ts' = some (entries, ts'')) :
    blockEntries d (fuel + 2) (.key :: .scalar style key :: .value :: ts) =
      some ((.scalar bare style key, v) :: entries, ts'') := by
  have hkey : node d (fuel + 1) true true (.scalar style key :: .value :: ts) =
      some (.scalar bare style key, .value :: ts) := node_scalar style key
  have hbegins : endsBlockNode (.scalar style key :: .value :: ts) = false := rfl
  rw [blockEntries, hbegins, if_neg Bool.false_ne_true, hkey, Option.bind_eq_bind, Option.bind_some]
  simp [hends, hv, hentries]

end Grammar

namespace Tree

open Grammar

/-- Whether a node begins with a token: with its own first one, or, in the column
    of its key, with that of an item. -/
def begins (lead : Lead) : Token → Bool
  | .scalar .. => true
  | .flowSequence => true
  | .flowMapping => true
  | .blockSequence => true
  | .blockMapping => true
  | .blockEntry => lead == .afterKey
  | _ => false

theorem exists_tokens_eq (v : Tree) (lead : Lead) :
    ∃ t ts, v.tokens lead = t :: ts ∧ begins lead t = true := by
  cases v with
  | null => exact ⟨_, _, rfl, rfl⟩
  | bool b => cases b <;> exact ⟨_, _, rfl, rfl⟩
  | int i => exact ⟨_, _, rfl, rfl⟩
  | float x => exact ⟨_, _, rfl, rfl⟩
  | text s => exact ⟨_, _, rfl, rfl⟩
  | sequence items =>
      cases items with
      | nil => exact ⟨_, _, rfl, rfl⟩
      | cons x items => cases lead <;> exact ⟨_, _, rfl, rfl⟩
  | mapping entries =>
      cases entries with
      | nil => exact ⟨_, _, rfl, rfl⟩
      | cons e entries => exact ⟨_, _, rfl, rfl⟩

theorem endsBlockNode_tokens (v : Tree) (lead : Lead) (ts : List Token) :
    endsBlockNode (v.tokens lead ++ ts) = false := by
  obtain ⟨t, ts', h, hbegins⟩ := exists_tokens_eq v lead
  rw [h, List.cons_append]
  cases t <;> first | rfl | cases hbegins

theorem endsBlockEntry_tokens (v : Tree) (ts : List Token) :
    endsBlockEntry (v.tokens .begun ++ ts) = false := by
  obtain ⟨t, ts', h, hbegins⟩ := exists_tokens_eq v .begun
  rw [h, List.cons_append]
  cases t <;> first | rfl | cases hbegins

/-- The grammar makes its node of the tokens of a tree. What stands in the column
    of its key takes a step more, and no other item may follow it there. -/
structure Parsed (d : Directives) (v : Tree) : Prop where
  begun : ∀ (fuel : Nat) (indentless : Bool) (ts : List Token), (v.tokens .begun).length ≤ fuel →
    Grammar.node d fuel true indentless (v.tokens .begun ++ ts) = some (v.node, ts)
  afterKey : ∀ (fuel : Nat) (ts : List Token), (v.tokens .afterKey).length + 2 ≤ fuel →
    ts.head? ≠ some .blockEntry →
      Grammar.node d fuel true true (v.tokens .afterKey ++ ts) = some (v.node, ts)

variable {d : Directives}

theorem Parsed.of_begun {v : Tree} (hlead : v.tokens .afterKey = v.tokens .begun)
    (h : ∀ (fuel : Nat) (indentless : Bool) (ts : List Token), (v.tokens .begun).length ≤ fuel →
      Grammar.node d fuel true indentless (v.tokens .begun ++ ts) = some (v.node, ts)) :
    Parsed d v := by
  refine ⟨h, fun fuel ts hfuel _ => ?_⟩
  rw [hlead] at hfuel ⊢
  exact h fuel true ts (by omega)

theorem Parsed.scalar {v : Tree} {style : ScalarStyle} {s : String}
    (htokens : ∀ lead, v.tokens lead = [.scalar style s])
    (hnode : (v.node : Node String) = .scalar bare style s) : Parsed d v := by
  refine .of_begun ((htokens _).trans (htokens _).symm) fun fuel indentless ts hfuel => ?_
  rw [htokens] at hfuel ⊢
  rw [hnode]
  obtain ⟨fuel, rfl⟩ := Nat.exists_eq_add_of_le' hfuel
  exact node_scalar style s

-- ## Lists

theorem blockItems_tokens {items : List Tree} (hitems : ∀ v ∈ items, Parsed d v) {fuel : Nat}
    (hfuel : (itemTokens items).length + 1 ≤ fuel) (ts : List Token) :
    blockItems d fuel (itemTokens items ++ .blockEnd :: ts) = some (itemNodes items, ts) := by
  obtain ⟨fuel, rfl⟩ := Nat.exists_eq_add_of_le' (Nat.le_of_add_left_le hfuel)
  induction items generalizing fuel with
  | nil => rfl
  | cons v items ih =>
      have hlength : (itemTokens (v :: items)).length =
          (v.tokens .begun).length + (itemTokens items).length + 1 := by
        simp [itemTokens]
      obtain ⟨fuel, rfl⟩ : ∃ k, fuel = k + 1 := ⟨fuel - 1, by omega⟩
      rw [itemTokens, List.cons_append, List.append_assoc]
      exact blockItems_cons (endsBlockEntry_tokens v _)
        ((hitems v List.mem_cons_self).begun _ false _ (by omega))
        (ih (fun w hw => hitems w (List.mem_cons_of_mem _ hw)) _ (by omega))

theorem indentlessItems_tokens {items : List Tree} (hitems : ∀ v ∈ items, Parsed d v) {fuel : Nat}
    (hfuel : (itemTokens items).length + 1 ≤ fuel) {ts : List Token}
    (hts : ts.head? ≠ some .blockEntry) :
    indentlessItems d fuel (itemTokens items ++ ts) = some (itemNodes items, ts) := by
  obtain ⟨fuel, rfl⟩ := Nat.exists_eq_add_of_le' (Nat.le_of_add_left_le hfuel)
  induction items generalizing fuel with
  | nil => exact indentlessItems_nil hts
  | cons v items ih =>
      have hlength : (itemTokens (v :: items)).length =
          (v.tokens .begun).length + (itemTokens items).length + 1 := by
        simp [itemTokens]
      obtain ⟨fuel, rfl⟩ : ∃ k, fuel = k + 1 := ⟨fuel - 1, by omega⟩
      rw [itemTokens, List.cons_append, List.append_assoc]
      exact indentlessItems_cons (endsBlockEntry_tokens v _) (endsBlockNode_tokens v _ _)
        ((hitems v List.mem_cons_self).begun _ false _ (by omega))
        (ih (fun w hw => hitems w (List.mem_cons_of_mem _ hw)) _ (by omega))

theorem parsed_sequence {items : List Tree} (hitems : ∀ v ∈ items, Parsed d v) :
    Parsed d (.sequence items) := by
  cases items with
  | nil =>
      refine .of_begun rfl fun fuel indentless ts hfuel => ?_
      obtain ⟨fuel, rfl⟩ := Nat.exists_eq_add_of_le' hfuel
      exact node_flowSequence
  | cons x items =>
      have hbegun : (sequence (x :: items)).tokens .begun =
          .blockSequence :: (itemTokens (x :: items) ++ [.blockEnd]) := by
        rw [tokens]
        rfl
      have hafterKey : (sequence (x :: items)).tokens .afterKey = itemTokens (x :: items) := by
        rw [tokens]
        rfl
      refine ⟨fun fuel indentless ts hfuel => ?_, fun fuel ts hfuel hts => ?_⟩
      · rw [hbegun] at hfuel ⊢
        rw [List.length_cons, List.length_append] at hfuel
        obtain ⟨fuel, rfl⟩ := Nat.exists_eq_add_of_le' (Nat.le_of_add_left_le hfuel)
        rw [List.cons_append, List.append_assoc, node]
        exact node_blockSequence (blockItems_tokens hitems (Nat.le_of_succ_le_succ hfuel) ts)
      · rw [hafterKey] at hfuel ⊢
        obtain ⟨fuel, rfl⟩ : ∃ k, fuel = k + 1 := ⟨fuel - 1, by omega⟩
        have h := indentlessItems_tokens hitems (Nat.le_of_succ_le_succ hfuel) hts
        rw [itemTokens, List.cons_append] at h ⊢
        exact node_indentless h

-- ## Mappings

theorem blockEntries_tokens {entries : List (String × Tree)} (hentries : ∀ e ∈ entries, Parsed d e.2)
    {fuel : Nat} (hfuel : (entryTokens entries).length + 1 ≤ fuel) (ts : List Token) :
    blockEntries d fuel (entryTokens entries ++ .blockEnd :: ts) =
      some (entryNodes entries, ts) := by
  obtain ⟨fuel, rfl⟩ := Nat.exists_eq_add_of_le' (Nat.le_of_add_left_le hfuel)
  induction entries generalizing fuel with
  | nil => rfl
  | cons e entries ih =>
      have hlength : (entryTokens (e :: entries)).length =
          (e.2.tokens (keyLead e.1)).length + (entryTokens entries).length + 3 := by
        simp [entryTokens]
      obtain ⟨fuel, rfl⟩ : ∃ k, fuel = k + 2 := ⟨fuel - 2, by omega⟩
      have hv : Grammar.node d (fuel + 2) true true (e.2.tokens (keyLead e.1) ++
          (entryTokens entries ++ .blockEnd :: ts)) =
            some (e.2.node, entryTokens entries ++ .blockEnd :: ts) := by
        have hparsed := hentries e List.mem_cons_self
        cases hkey : keyLead e.1 with
        | begun => exact hparsed.begun _ true _ (by rw [hkey] at hlength; omega)
        | afterKey =>
            refine hparsed.afterKey _ _ (by rw [hkey] at hlength; omega) ?_
            cases entries <;> simp [entryTokens]
      rw [entryTokens, List.cons_append, List.cons_append, List.cons_append, List.append_assoc]
      exact blockEntries_cons (endsBlockNode_tokens _ _ _) hv
        (ih (fun f hf => hentries f (List.mem_cons_of_mem _ hf)) _ (by omega))

theorem parsed_mapping {entries : List (String × Tree)} (hentries : ∀ e ∈ entries, Parsed d e.2) :
    Parsed d (.mapping entries) := by
  refine .of_begun ?_ fun fuel indentless ts hfuel => ?_
  · rw [tokens, tokens]
  cases entries with
  | nil =>
      obtain ⟨fuel, rfl⟩ := Nat.exists_eq_add_of_le' hfuel
      exact node_flowMapping
  | cons e entries =>
      have htokens : (mapping (e :: entries)).tokens .begun =
          .blockMapping :: (entryTokens (e :: entries) ++ [.blockEnd]) := by
        rw [tokens]
        rfl
      rw [htokens] at hfuel ⊢
      rw [List.length_cons, List.length_append] at hfuel
      obtain ⟨fuel, rfl⟩ := Nat.exists_eq_add_of_le' (Nat.le_of_add_left_le hfuel)
      rw [List.cons_append, List.append_assoc, node]
      exact node_blockMapping (blockEntries_tokens hentries (Nat.le_of_succ_le_succ hfuel) ts)

theorem parsed (d : Directives) (v : Tree) : Parsed d v := by
  induction v using Tree.induction with
  | word v w h => exact .scalar (tokens_word h) (node_word h)
  | text s => exact .scalar (fun _ => rfl) rfl
  | sequence items ih => exact parsed_sequence ih
  | mapping entries ih => exact parsed_mapping ih

-- ## Documents

end Tree

/-- Nothing in a node has an anchor or refers to one, whatever stands for the
    references. -/
structure Unlinked (n : (R : Type) → Node R) : Prop where
  link : Node.link [] (n String) = some ([], n Nat)
  anchored : Node.anchored (n Nat) = []

theorem linkProps_bare : Node.linkProps [] bare = ([], bare) := rfl

namespace Unlinked

theorem scalar (style : ScalarStyle) (s : String) : Unlinked fun _ => .scalar bare style s := by
  refine ⟨?_, rfl⟩
  rw [Node.link, linkProps_bare]

theorem sequence {α : Type} {item : α → (R : Type) → Node R} {items : List α}
    (hitems : ∀ x ∈ items, Unlinked (item x)) :
    Unlinked fun R => .sequence bare (items.map fun x => item x R) := by
  have hparts : Node.linkItems [] (items.map fun x => item x String) =
        some ([], items.map fun x => item x Nat) ∧
      Node.anchoredItems (items.map fun x => item x Nat) = [] := by
    induction items with
    | nil => exact ⟨rfl, rfl⟩
    | cons x items ih =>
        have hx := hitems x List.mem_cons_self
        obtain ⟨hlink, hanchored⟩ := ih fun y hy => hitems y (List.mem_cons_of_mem _ hy)
        refine ⟨?_, ?_⟩
        · simp only [List.map_cons, Node.linkItems, hx.link, hlink, Option.map_some]
        · rw [List.map_cons, Node.anchoredItems, hx.anchored, hanchored, List.append_nil]
  refine ⟨?_, ?_⟩
  · simp only [Node.link, linkProps_bare, hparts.1, Option.map_some]
  · rw [Node.anchored, hparts.2]
    rfl

theorem mapping {α : Type} {style : α → ScalarStyle} {key : α → String}
    {value : α → (R : Type) → Node R} {entries : List α}
    (hentries : ∀ e ∈ entries, Unlinked (value e)) :
    Unlinked fun R => .mapping bare (entries.map fun e =>
      (.scalar bare (style e) (key e), value e R)) := by
  have hparts : Node.linkEntries [] (entries.map fun e =>
        (.scalar bare (style e) (key e), value e String)) =
      some ([], entries.map fun e => (.scalar bare (style e) (key e), value e Nat)) ∧
      Node.anchoredEntries (entries.map fun e =>
        (.scalar bare (style e) (key e), value e Nat)) = [] := by
    induction entries with
    | nil => exact ⟨rfl, rfl⟩
    | cons e entries ih =>
        have hv := hentries e List.mem_cons_self
        obtain ⟨hlink, hanchored⟩ := ih fun f hf => hentries f (List.mem_cons_of_mem _ hf)
        refine ⟨?_, ?_⟩
        · simp only [List.map_cons, Node.linkEntries, Node.link, linkProps_bare, hv.link, hlink,
            Option.map_some]
        · rw [List.map_cons, Node.anchoredEntries, Node.anchored, hv.anchored, hanchored]
          rfl
  refine ⟨?_, ?_⟩
  · simp only [Node.link, linkProps_bare, hparts.1, Option.map_some]
  · rw [Node.anchored, hparts.2]
    rfl

end Unlinked

/-- A text that consists of a mapping is a document. -/
theorem document?_of_mapping {text : String} {ts : List Token} {n : (R : Type) → Node R}
    (htokens : tokens? text = some (.blockMapping :: ts))
    (hparsed : ∀ fuel, ts.length ≤ fuel →
      Grammar.node ⟨false, []⟩ fuel true false (.blockMapping :: ts) = some (n String, [.streamEnd]))
    (hunlinked : Unlinked n) : document? text = some (some ⟨n Nat, []⟩) := by
  have hroot : Grammar.document (.blockMapping :: ts) = some (n String, [.streamEnd]) :=
    hparsed (2 * (Token.blockMapping :: ts).length + 4) (by rw [List.length_cons]; omega)
  rw [document?, htokens, Option.bind_eq_bind, Option.bind_some]
  simp [hroot, Document.ofNode?, hunlinked.link, hunlinked.anchored]

namespace Tree

theorem unlinked (v : Tree) : Unlinked fun _ => v.node := by
  induction v using Tree.induction with
  | word v w h =>
      simp only [node_word h]
      exact .scalar _ _
  | text s => exact .scalar _ _
  | sequence items ih =>
      simp only [node, itemNodes_eq_map]
      exact .sequence ih
  | mapping entries ih =>
      simp only [node, entryNodes_eq_map]
      exact .mapping ih

/-- The document of a written mapping is the same mapping. -/
theorem document?_write {entries : List (String × Tree)} (hne : entries ≠ []) :
    document? (mapping entries).write = some (some ⟨(mapping entries).node, []⟩) := by
  have htokens : (mapping entries).tokens .begun ++ [.streamEnd] =
      .blockMapping :: (entryTokens entries ++ [.blockEnd, .streamEnd]) := by
    rw [tokens, if_neg (by simpa using hne), List.cons_append, List.append_assoc,
      List.singleton_append]
  have hscanned := tokens?_write hne
  rw [htokens] at hscanned
  refine document?_of_mapping hscanned (fun fuel hfuel => ?_) (unlinked (mapping entries))
  rw [← htokens]
  refine (parsed ⟨false, []⟩ (mapping entries)).begun fuel false [.streamEnd] ?_
  have hlength := congrArg List.length htokens
  rw [List.length_append, List.length_singleton, List.length_cons] at hlength
  omega

end Tree

end Yaml

end SimStudio
