import SimStudio.Proofs.Configuration.Prompts
import SimStudio.Proofs.Yaml.Reading

/-!
# Prompts Read Back

What a reader gets out of a text of prompts: the prompts, to the letter, at
their keys and in their order.

That is so for any prompts among any keys, with two exceptions, and either one
makes the whole text unreadable. A block tells its depth only where its text
begins with a space. The scanner looks for it in all others, and takes the tab
with which some begin for indentation, which must not have any. And no style
escapes the non-characters of the basic plane.

Values are read up to a limit of nested mappings and lists. How deep a prompt
stands makes no difference before.

## Main definitions

* `PromptTree.node`: What stands at a key as a node of a document.
* `PromptTree.toJson`: The same as a value.
* `PromptTree.nesting`: How many mappings and lists stand in one another.

## Theorems

* `PromptTree.parsed`: The grammar makes its node of every tree.
* `PromptTree.document?_document`: The document of a text of prompts.
* `PromptTree.readText?_document`: Its value.
* `PromptTree.prompts_read_back`: Both at once.
-/

namespace SimStudio

open Yaml (bare Unlinked)

namespace PromptTree

variable {R : Type}

-- ## Nodes

mutual

/-- What stands at a key as a node of a document. -/
def node : PromptTree → Yaml.Node R
  | prompt text => .scalar bare (promptStyle text) text
  | fields members => .mapping bare (memberNodes members)
  | items each => .sequence bare (itemNodes each)

/-- The keys of a mapping with their nodes. -/
def memberNodes : List (String × PromptTree) → List (Yaml.Node R × Yaml.Node R)
  | [] => []
  | (key, t) :: rest => (.scalar bare (keyStyle key) key, node t) :: memberNodes rest

/-- The items of a list as nodes. -/
def itemNodes : List (List (String × PromptTree)) → List (Yaml.Node R)
  | [] => []
  | members :: rest => .mapping bare (memberNodes members) :: itemNodes rest

end

theorem memberNodes_eq_map (members : List (String × PromptTree)) :
    (memberNodes members : List (Yaml.Node R × Yaml.Node R)) =
      members.map fun m => (.scalar bare (keyStyle m.1) m.1, m.2.node) := by
  induction members with
  | nil => rfl
  | cons m members ih => rw [memberNodes, List.map_cons, ih]

theorem itemNodes_eq_map (each : List (List (String × PromptTree))) :
    (itemNodes each : List (Yaml.Node R)) =
      each.map fun members => .mapping bare (members.map fun m =>
        (.scalar bare (keyStyle m.1) m.1, m.2.node)) := by
  induction each with
  | nil => rfl
  | cons members each ih => rw [itemNodes, List.map_cons, ih, memberNodes_eq_map]

/-- Trees by their parts. -/
theorem induction {P : PromptTree → Prop} (prompt : ∀ text, P (.prompt text))
    (fields : ∀ members, (∀ m ∈ members, P m.2) → P (.fields members))
    (items : ∀ each, (∀ members ∈ each, ∀ m ∈ members, P m.2) → P (.items each))
    (t : PromptTree) : P t := by
  refine @PromptTree.rec P (fun members => ∀ m ∈ members, P m.2)
    (fun each => ∀ members ∈ each, ∀ m ∈ members, P m.2) (fun m => P m.2) prompt fields items ?_ ?_
    ?_ ?_ (fun _ _ ih => ih) t
  · exact fun _ hm => absurd hm List.not_mem_nil
  · exact fun _ _ hm hrest => List.forall_mem_cons.mpr ⟨hm, hrest⟩
  · exact fun _ hm => absurd hm List.not_mem_nil
  · exact fun _ _ hm hrest => List.forall_mem_cons.mpr ⟨hm, hrest⟩

theorem unlinked (t : PromptTree) : Unlinked fun _ => t.node := by
  induction t using PromptTree.induction with
  | prompt text => exact .scalar _ _
  | fields members ih =>
      simp only [node, memberNodes_eq_map]
      exact .mapping ih
  | items each ih =>
      simp only [node, itemNodes_eq_map]
      exact .sequence fun members hmembers => .mapping (ih members hmembers)

-- ## Grammar

open Yaml (Token Directives)
open Yaml.Grammar (blockEntries blockItems endsBlockNode)

variable {d : Directives}

/-- The grammar makes its node of the tokens of what stands at a key. -/
def Parsed (d : Directives) (t : PromptTree) : Prop :=
  ∀ (fuel : Nat) (indentless : Bool) (ts : List Token), t.tokens.length ≤ fuel →
    Yaml.Grammar.node d fuel true indentless (t.tokens ++ ts) = some (t.node, ts)

theorem endsBlockNode_tokens (t : PromptTree) (ts : List Token) :
    endsBlockNode (t.tokens ++ ts) = false := by
  cases t <;> rfl

theorem blockEntries_tokens {members : List (String × PromptTree)}
    (h : ∀ m ∈ members, m.2.Parsed d) {fuel : Nat} (hfuel : (memberTokens members).length + 1 ≤ fuel)
    (ts : List Token) :
    blockEntries d fuel (memberTokens members ++ .blockEnd :: ts) =
      some (memberNodes members, ts) := by
  obtain ⟨fuel, rfl⟩ := Nat.exists_eq_add_of_le' (Nat.le_of_add_left_le hfuel)
  induction members generalizing fuel with
  | nil => rfl
  | cons m members ih =>
      obtain ⟨key, t⟩ := m
      have hlength : (memberTokens ((key, t) :: members)).length =
          t.tokens.length + (memberTokens members).length + 3 := by
        simp [memberTokens]
      obtain ⟨fuel, rfl⟩ : ∃ k, fuel = k + 2 := ⟨fuel - 2, by omega⟩
      have ht : t.Parsed d := h _ List.mem_cons_self
      rw [memberTokens, List.cons_append, List.cons_append, List.cons_append, List.append_assoc]
      exact Yaml.Grammar.blockEntries_cons (endsBlockNode_tokens t _) (ht _ true _ (by omega))
        (ih (fun m hm => h m (List.mem_cons_of_mem _ hm)) _ (by omega))

theorem blockItems_tokens {each : List (List (String × PromptTree))}
    (h : ∀ members ∈ each, ∀ m ∈ members, m.2.Parsed d) {fuel : Nat}
    (hfuel : (itemTokens each).length + 1 ≤ fuel) (ts : List Token) :
    blockItems d fuel (itemTokens each ++ .blockEnd :: ts) = some (itemNodes each, ts) := by
  obtain ⟨fuel, rfl⟩ := Nat.exists_eq_add_of_le' (Nat.le_of_add_left_le hfuel)
  induction each generalizing fuel with
  | nil => rfl
  | cons members each ih =>
      have hlength : (itemTokens (members :: each)).length =
          (memberTokens members).length + (itemTokens each).length + 3 := by
        simp [itemTokens]
        omega
      obtain ⟨fuel, rfl⟩ : ∃ k, fuel = k + 2 := ⟨fuel - 2, by omega⟩
      rw [itemTokens, List.cons_append, List.cons_append, List.append_assoc, List.cons_append]
      exact Yaml.Grammar.blockItems_cons rfl
        (Yaml.Grammar.node_blockMapping
          (blockEntries_tokens (h _ List.mem_cons_self) (by omega) _))
        (ih (fun ms hms => h ms (List.mem_cons_of_mem _ hms)) _ (by omega))

theorem parsed (d : Directives) (t : PromptTree) : t.Parsed d := by
  induction t using PromptTree.induction with
  | prompt text =>
      intro fuel indentless ts hfuel
      obtain ⟨fuel, rfl⟩ := Nat.exists_eq_add_of_le' hfuel
      exact Yaml.Grammar.node_scalar _ _
  | fields members ih =>
      intro fuel indentless ts hfuel
      rw [tokens, List.length_cons, List.length_append] at hfuel
      obtain ⟨fuel, rfl⟩ := Nat.exists_eq_add_of_le' (Nat.le_of_add_left_le hfuel)
      rw [tokens, List.cons_append, List.append_assoc, node]
      exact Yaml.Grammar.node_blockMapping
        (blockEntries_tokens ih (Nat.le_of_succ_le_succ hfuel) ts)
  | items each ih =>
      intro fuel indentless ts hfuel
      rw [tokens, List.length_cons, List.length_append] at hfuel
      obtain ⟨fuel, rfl⟩ := Nat.exists_eq_add_of_le' (Nat.le_of_add_left_le hfuel)
      rw [tokens, List.cons_append, List.append_assoc, node]
      exact Yaml.Grammar.node_blockSequence
        (blockItems_tokens ih (Nat.le_of_succ_le_succ hfuel) ts)

/-- The document of a text of prompts. -/
theorem document?_document {members : List (String × PromptTree)} (h : (fields members).Lawful) :
    Yaml.document? (document members) =
      if (memberTexts members).all isKept then some (some ⟨(fields members).node, []⟩)
      else none := by
  have htokens := tokens?_document h
  split
  · rename_i hkept
    rw [if_pos hkept] at htokens
    refine Yaml.document?_of_mapping htokens (fun fuel hfuel => ?_) (unlinked (fields members))
    refine parsed ⟨false, []⟩ (fields members) fuel false [.streamEnd] ?_
    rw [tokens, List.length_cons]
    simp at hfuel
    simp
    omega
  · rename_i hkept
    rw [if_neg hkept] at htokens
    rw [Yaml.document?, htokens]
    rfl

-- ## Values

mutual

/-- What stands at a key as a value. -/
def toJson : PromptTree → Json
  | prompt text => .text text
  | fields members => Json.ofMembers (memberValues members)
  | items each => .array (itemValues each)

/-- The keys of a mapping with their values. -/
def memberValues : List (String × PromptTree) → List (String × Json)
  | [] => []
  | (key, t) :: rest => (key, toJson t) :: memberValues rest

/-- The items of a list as values. -/
def itemValues : List (List (String × PromptTree)) → List Json
  | [] => []
  | members :: rest => Json.ofMembers (memberValues members) :: itemValues rest

end

mutual

/-- How many mappings and lists stand in one another. -/
def nesting : PromptTree → Nat
  | prompt _ => 0
  | fields members => memberNesting members + 1
  | items each => itemNesting each + 1

/-- The same below the keys of a mapping. -/
def memberNesting : List (String × PromptTree) → Nat
  | [] => 0
  | (_, t) :: rest => max (nesting t) (memberNesting rest)

/-- The same below the items of a list. -/
def itemNesting : List (List (String × PromptTree)) → Nat
  | [] => 0
  | members :: rest => max (memberNesting members + 1) (itemNesting rest)

end

theorem memberValues_eq_map (members : List (String × PromptTree)) :
    memberValues members = members.map fun m => (m.1, m.2.toJson) := by
  induction members with
  | nil => rfl
  | cons m members ih => rw [memberValues, List.map_cons, ih]

theorem itemValues_eq_map (each : List (List (String × PromptTree))) :
    itemValues each = each.map fun members => Json.ofMembers (memberValues members) := by
  induction each with
  | nil => rfl
  | cons members each ih => rw [itemValues, List.map_cons, ih]

theorem memberNesting_le {members : List (String × PromptTree)} {depth : Nat} :
    memberNesting members ≤ depth ↔ ∀ m ∈ members, m.2.nesting ≤ depth := by
  induction members with
  | nil => simp [memberNesting]
  | cons m members ih => rw [memberNesting, Nat.max_le, ih, List.forall_mem_cons]

theorem itemNesting_le {each : List (List (String × PromptTree))} {depth : Nat} :
    itemNesting each ≤ depth ↔ ∀ members ∈ each, memberNesting members + 1 ≤ depth := by
  induction each with
  | nil => simp [itemNesting]
  | cons members each ih => rw [itemNesting, Nat.max_le, ih, List.forall_mem_cons]

variable (doc : Yaml.Document)

theorem json_prompt (depth : Nat) (text : String) :
    doc.json depth (prompt text).node = pure (.text text) := by
  have hstyle : promptStyle text ≠ .plain := by
    unfold promptStyle
    split <;> decide
  have hcontent : Yaml.scalarContent? bare (promptStyle text) text = some (.text text) := by
    rw [Yaml.scalarContent?, bare]
    exact if_neg hstyle
  rw [node, Yaml.Document.json_scalar, Yaml.scalarJson?, hcontent]
  rfl

/-- A mapping is read as a value if what stands at its keys is. -/
theorem json_members {members : List (String × PromptTree)} {depth : Nat}
    (h : ∀ m ∈ members, doc.json depth m.2.node =
      if m.2.nesting ≤ depth then pure m.2.toJson else failure) :
    doc.json (depth + 1) (.mapping bare (memberNodes members)) =
      if memberNesting members ≤ depth then pure (Json.ofMembers (memberValues members))
      else failure := by
  rw [memberNodes_eq_map, memberValues_eq_map, Yaml.Document.json]
  simp only [Yaml.Document.follow, pure_bind]
  rw [if_neg (by decide), Reading.mapM_eq_ite (f := fun m => (m.1, m.2.toJson))
    (p := fun m => m.2.nesting ≤ depth)]
  · simp only [memberNesting_le]
    split <;> rfl
  · intro m hm
    have htext : doc.text (.scalar bare (keyStyle m.1) m.1) = pure m.1 := rfl
    simp only [htext, pure_bind, h m hm]
    split <;> rfl

theorem json_node (t : PromptTree) (depth : Nat) :
    doc.json depth t.node = if t.nesting ≤ depth then pure t.toJson else failure := by
  induction t using PromptTree.induction generalizing depth with
  | prompt text => rw [json_prompt, nesting, if_pos (Nat.zero_le _), toJson]
  | fields members ih =>
      cases depth with
      | zero => rfl
      | succ depth =>
          rw [node, json_members doc fun m hm => ih m hm depth, nesting, toJson]
          simp only [Nat.add_le_add_iff_right]
  | items each ih =>
      cases depth with
      | zero => rfl
      | succ depth =>
          have hnode : (items each).node = (.sequence bare (each.map fun members =>
              .mapping bare (memberNodes members)) : Yaml.Node Nat) := by
            rw [node, itemNodes_eq_map]
            simp only [memberNodes_eq_map]
          -- An item is a mapping, which takes a level of its own.
          have hitem : ∀ members ∈ each, doc.json depth (.mapping bare (memberNodes members)) =
              if memberNesting members + 1 ≤ depth then pure (Json.ofMembers (memberValues members))
              else failure := by
            intro members hmembers
            cases depth with
            | zero => rfl
            | succ depth =>
                rw [json_members doc fun m hm => ih members hmembers m hm depth]
                simp only [Nat.add_le_add_iff_right]
          rw [hnode, toJson, itemValues_eq_map, nesting, Yaml.Document.json]
          simp only [Yaml.Document.follow, pure_bind]
          rw [if_neg (by decide), Reading.mapM_eq_ite hitem]
          simp only [Nat.add_le_add_iff_right, itemNesting_le]
          split <;> rfl

/-- The value of a text of prompts, within the limit. -/
theorem readText?_document {members : List (String × PromptTree)} (h : (fields members).Lawful) :
    Yaml.readText? Format.value (document members) =
      if (memberTexts members).all isKept ∧ (fields members).nesting ≤ Yaml.depthLimit then
        some (fields members).toJson
      else none := by
  have hread := fun d : Yaml.Document => json_node d (fields members) Yaml.depthLimit
  rw [Yaml.readText?, document?_document h]
  by_cases hkept : (memberTexts members).all isKept = true
  · rw [if_pos hkept, Option.bind_eq_bind, Option.bind_some]
    change (Yaml.Document.json ⟨(fields members).node, []⟩ Yaml.depthLimit (fields members).node
      _).bind _ = _
    rw [hread]
    by_cases hdepth : (fields members).nesting ≤ Yaml.depthLimit
    · rw [if_pos hdepth, if_pos ⟨hkept, hdepth⟩]
      rfl
    · rw [if_neg hdepth, if_neg fun hboth => hdepth hboth.2]
      rfl
  · rw [if_neg hkept, if_neg fun hboth => hkept hboth.1]
    rfl

/-- Prompts come back to the letter, wherever they stand, if all of them are kept. -/
theorem prompts_read_back {members : List (String × PromptTree)} (h : (fields members).Lawful) :
    Yaml.document? (document members) =
        (if (memberTexts members).all isKept then some (some ⟨(fields members).node, []⟩)
        else none) ∧
      Yaml.readText? Format.value (document members) =
        if (memberTexts members).all isKept ∧ (fields members).nesting ≤ Yaml.depthLimit then
          some (fields members).toJson
        else none :=
  ⟨document?_document h, readText?_document h⟩

/-- Prompts with blanks in front and line ends behind, in items and beside them, one
    that is empty and one that is no block. -/
def sample : List (String × PromptTree) :=
  [("agent_roles", .items [
      [("prompts", .fields [("system", .prompt "  a\n b\n\n"), ("user", .prompt "\n \tc\n")])],
      [("prompts", .fields [("user", .prompt "")])]]),
    ("true", .prompt "x: |\r")]

theorem prompts_read_back_sample :
    (fields sample).Lawful ∧
      Yaml.document? (document sample) = some (some ⟨(fields sample).node, []⟩) ∧
        Yaml.readText? Format.value (document sample) = some (.object [
          ("agent_roles", .array [
            .object [("prompts", .object [("system", .text "  a\n b\n\n"),
              ("user", .text "\n \tc\n")])],
            .object [("prompts", .object [("user", .text "")])]]),
          ("true", .text "x: |\r")]) := by
  have hkeys : ∀ key ∈ ["agent_roles", "prompts", "system", "user", "true"], FieldKey key := by
    have hshort : ∀ key ∈ ["agent_roles", "prompts", "system", "user", "true"],
        isIdentifier key = true ∧ key.length ≤ 1024 := by
      decide
    exact fun key hkey => .of_isIdentifier (hshort key hkey).1 (hshort key hkey).2
  have hprompts : ∀ texts : List (String × String), texts ≠ [] →
      (∀ t ∈ texts, FieldKey t.1) →
        (fields (texts.map fun t => (t.1, prompt t.2))).Lawful := by
    intro texts hne hkeys
    refine .fields (by simpa using hne) (fun m hm => ?_) fun m hm => ?_
    · obtain ⟨t, ht, rfl⟩ := List.mem_map.mp hm
      exact hkeys t ht
    · obtain ⟨t, -, rfl⟩ := List.mem_map.mp hm
      exact .prompt _
  have hfirst := hprompts [("system", "  a\n b\n\n"), ("user", "\n \tc\n")] (by simp)
    (by simp [hkeys])
  have hsecond := hprompts [("user", "")] (by simp) (by simp [hkeys])
  have h : (fields sample).Lawful :=
    .fields (by simp [sample]) (by simp [sample, hkeys]) (List.forall_mem_cons.mpr
      ⟨.items (by simp) (by simp) (by simp [hkeys]) (by simpa using ⟨hfirst, hsecond⟩),
        by simpa using Lawful.prompt _⟩)
  obtain ⟨hdocument, hvalue⟩ := prompts_read_back h
  exact ⟨h, hdocument.trans (if_pos (by decide)), hvalue.trans (if_pos (by decide))⟩

/-- A block whose text begins with a tab does not tell its depth, and a non-character
    cannot be read in any style. -/
theorem prompts_lost :
    Yaml.document? (document [("system", .prompt "\tfoo")]) = none ∧
      Yaml.document? (document [("system", .prompt "\ufffe")]) = none := by
  decide

end PromptTree

end SimStudio
