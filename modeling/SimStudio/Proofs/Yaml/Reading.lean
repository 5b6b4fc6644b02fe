import SimStudio.Proofs.Json.Compact
import SimStudio.Proofs.Json.Members
import SimStudio.Proofs.Yaml.Meaning
import SimStudio.Proofs.Yaml.Parsing
import SimStudio.Project.Read
import SimStudio.Project.Tree

/-!
# Written Trees Read

What the questions about a place answer where a written tree stands.

A written tree refers to nothing, so no question about it is paid for: each
answer is given on any budget and leaves it as it is. That makes an answer an
equation between readings, and reading a record is rewriting with them.

## Main definitions

* `Yaml.Tree.place`: Where a tree stands in a document.
* `Yaml.Tree.fields`: The fields of a mapping.

## Theorems

* `Yaml.Tree.value_place`: A JSON value is read back.
* `Yaml.Tree.read_fields`: The fields of a record are its entries.
* `Yaml.Tree.optional_of_lookup`: A field that may be missing.
-/

namespace SimStudio

namespace Reading

/-- Items that are each read for nothing, or not at all, are so together. -/
theorem mapM_eq_ite {α β γ : Type} {read : β → Reading γ} {place : α → β} {f : α → γ}
    {p : α → Prop} [DecidablePred p] {items : List α}
    (h : ∀ x ∈ items, read (place x) = if p x then pure (f x) else failure) :
    (items.map place).mapM read =
      if ∀ x ∈ items, p x then pure (items.map f) else failure := by
  induction items with
  | nil => simp
  | cons x items ih =>
      rw [List.map_cons, List.mapM_cons, h x List.mem_cons_self,
        ih fun y hy => h y (List.mem_cons_of_mem _ hy)]
      by_cases hx : p x
      · by_cases hitems : ∀ y ∈ items, p y
        · rw [if_pos hx, if_pos hitems, if_pos (List.forall_mem_cons.mpr ⟨hx, hitems⟩)]
          rfl
        · rw [if_pos hx, if_neg hitems, if_neg fun hall => hitems (List.forall_mem_cons.mp hall).2]
          rfl
      · rw [if_neg hx, if_neg fun hall => hx (List.forall_mem_cons.mp hall).1]
        rfl

/-- Items that are each read for nothing are so together. -/
theorem mapM_eq_pure {α β γ : Type} {read : β → Reading γ} {place : α → β} {f : α → γ}
    {items : List α} (h : ∀ x ∈ items, read (place x) = pure (f x)) :
    (items.map place).mapM read = pure (items.map f) := by
  rw [mapM_eq_ite (p := fun _ => True) fun x hx => (h x hx).trans (if_pos trivial).symm]
  exact if_pos fun _ _ => trivial

/-- What reads on from a part that is read for nothing. -/
theorem bind_eq {α β : Type} {read : Reading α} {x : α} {next : α → Reading β} {whole : Reading β}
    (h : read = pure x) (hnext : next x = whole) : read >>= next = whole := by
  rw [h, pure_bind, hnext]

end Reading

namespace Yaml

-- ## Scalars

/-- What a meaning is as content, of a scalar with the given text. -/
def Meaning.content? (s : String) : Meaning → Option Content
  | null => some .null
  | bool b => some (.bool b)
  | int i => intContent? i
  | float x => some (.float x)
  | text => some (.text s)

theorem scalarContent?_plain {s : String} {m : Meaning} (h : meaning s = m) :
    scalarContent? bare .plain s = m.content? s := by
  simp only [scalarContent?, bare, if_true, h]
  cases m <;> rfl

theorem scalarContent?_null : scalarContent? bare .plain "null" = some .null :=
  scalarContent?_plain (m := .null) (by decide)

theorem scalarContent?_bool (b : Bool) :
    scalarContent? bare .plain (if b then "true" else "false") = some (.bool b) := by
  cases b with
  | true => exact scalarContent?_plain (m := .bool true) (by decide)
  | false => exact scalarContent?_plain (m := .bool false) (by decide)

theorem ofInt?_of_fits {i : Int} (h : -2 ^ 63 ≤ i ∧ i < 2 ^ 64) :
    JsonNumber.ofInt? i = some (.int i h) :=
  dif_pos h

theorem scalarContent?_int {i : Int} (h : -2 ^ 63 ≤ i ∧ i < 2 ^ 64) :
    scalarContent? bare .plain (toString i) = some (.int i) := by
  rw [scalarContent?_plain (meaning_intText h), Meaning.content?, intContent?, ofInt?_of_fits h,
    Option.map_some]

theorem scalarContent?_float (negative : Bool) (a : Magnitude) :
    scalarContent? bare .plain (floatText (.finite negative a)) =
      some (.float (.finite negative a)) :=
  scalarContent?_plain (meaning_floatText negative a)

theorem scalarContent?_text (s : String) :
    scalarContent? bare (styleOf s) s = some (.text s) := by
  by_cases h : styleOf s = .plain
  · obtain ⟨first, rest, -, -, hmeaning⟩ := isPlain_of_styleOf h
    rw [h]
    exact scalarContent?_plain hmeaning
  · rw [scalarContent?, bare]
    exact if_neg h

-- ## Nodes

namespace Document

variable (d : Document)

theorem follow_node (v : Tree) : d.follow v.node = pure v.node := by
  cases v with
  | bool b => cases b <;> rfl
  | _ => rfl

theorem text_node (s : String) : d.text (Tree.text s).node = pure s := rfl

theorem json_scalar (depth : Nat) (style : ScalarStyle) (s : String) :
    d.json depth (.scalar bare style s) = .ofOption (scalarJson? bare style s) := by
  cases depth <;> rfl

theorem content_scalar (depth : Nat) (style : ScalarStyle) (s : String) :
    d.content depth (.scalar bare style s) = .ofOption (scalarContent? bare style s) := by
  cases depth <;> rfl

theorem json_word {v : Json} (h : v.isWord = true) (depth : Nat) :
    d.json depth v.toTree.node = pure v := by
  cases v with
  | null =>
      rw [Json.toTree, Tree.node, json_scalar, scalarJson?, scalarContent?_null]
      rfl
  | bool b =>
      have hnode : ((Json.bool b).toTree.node : Node Nat) =
          .scalar bare .plain (if b then "true" else "false") := by
        cases b <;> rfl
      rw [hnode, json_scalar, scalarJson?, scalarContent?_bool]
      rfl
  | number n =>
      cases n with
      | int i fits =>
          rw [Json.toTree, Tree.node, json_scalar, scalarJson?, scalarContent?_int fits]
          exact congrArg (fun n => Reading.ofOption (Option.map Json.number n)) (ofInt?_of_fits fits)
      | float negative a =>
          rw [Json.toTree, Tree.node, json_scalar, scalarJson?, scalarContent?_float]
          rfl
  | text s => cases h
  | array items => cases h
  | object members => cases h

theorem json_array {depth : Nat} {items : List Json}
    (h : ∀ v ∈ items, d.json depth v.toTree.node = pure v) :
    d.json (depth + 1) (Json.array items).toTree.node = pure (.array items) := by
  have hnode : ((Json.array items).toTree.node : Node Nat) =
      .sequence bare (items.map fun v => v.toTree.node) := by
    rw [Json.toTree, Tree.node, Tree.itemNodes_eq_map, Json.toTreeItems_eq_map, List.map_map]
    rfl
  rw [hnode, json]
  simp [follow, isOwnTag, bare, Reading.mapM_eq_pure (f := id) h]

theorem json_object {depth : Nat} {members : List (String × Json)}
    (hsorted : Entries.Sorted members)
    (h : ∀ m ∈ members, d.json depth m.2.toTree.node = pure m.2) :
    d.json (depth + 1) (Json.object members).toTree.node = pure (.object members) := by
  have hnode : ((Json.object members).toTree.node : Node Nat) =
      .mapping bare (members.map fun m => ((Tree.text m.1).node, m.2.toTree.node)) := by
    rw [Json.toTree, Tree.node, Tree.entryNodes_eq_map, Json.toTreeMembers_eq_map, List.map_map]
    rfl
  rw [hnode, json]
  simp only [follow, isOwnTag, bare, pure_bind]
  rw [Reading.mapM_eq_pure (f := id)]
  · simp [Json.ofMembers_of_sorted hsorted]
  · intro m hm
    simp [text_node, h m hm]

theorem json_toTree {v : Json} (h : v.Ordered) {depth : Nat} (hdepth : v.nesting ≤ depth) :
    d.json depth v.toTree.node = pure v := by
  induction v using Json.induction generalizing depth with
  | word v hv => exact json_word d hv depth
  | text s =>
      rw [Json.toTree, Tree.node, json_scalar, scalarJson?, scalarContent?_text]
      rfl
  | array items ih =>
      cases h with
      | array each =>
          obtain ⟨depth, rfl⟩ : ∃ k, depth = k + 1 := ⟨depth - 1, by rw [Json.nesting] at hdepth; omega⟩
          exact json_array d fun v hv => ih v hv (each v hv) (Json.nesting_array_le.mp hdepth v hv)
  | object members ih =>
      cases h with
      | object sorted each =>
          obtain ⟨depth, rfl⟩ : ∃ k, depth = k + 1 := ⟨depth - 1, by rw [Json.nesting] at hdepth; omega⟩
          exact json_object d sorted fun m hm =>
            ih m hm (each m hm) (Json.nesting_object_le.mp hdepth m hm)

end Document

-- ## Places

namespace Tree

variable (d : Document) (depth : Nat)

/-- Where a tree stands in a document, with how much deeper it may go. -/
def place (v : Tree) : Place := ⟨d, some v.node, depth⟩

theorem resolve_place (v : Tree) : (v.place d depth).resolve = pure v.node :=
  Document.follow_node d v

theorem text_place (s : String) : Format.text ((Tree.text s).place d depth) = pure s := rfl

theorem value_place {v : Json} (h : v.Ordered) (hdepth : v.nesting ≤ depth) :
    Format.value (v.toTree.place d depth) = pure v :=
  Document.json_toTree d h hdepth

theorem natural_place {n bound : Nat} (h : n < bound) :
    Format.natural bound ((Tree.int n).place d depth) = pure n := by
  have hcs : (toString (n : Int)).toList = Digits.text n := by
    rcases intText_cases n with ⟨-, htext⟩ | ⟨hn, -⟩
    · exact htext
    · omega
  have hnumeric : ((Tree.int n).place d depth).numeric = pure (Digits.text n) := by
    rw [Place.numeric, resolve_place, pure_bind, ← hcs]
    rfl
  exact (congrArg (· >>= fun cs => Reading.ofOption (unsigned? bound cs)) hnumeric).trans
    (by rw [pure_bind, unsigned?_text h]; rfl)

theorem word_place (n : UInt32) : Format.word ((wordTree n).place d depth) = pure n := by
  rw [Format.word, wordTree, natural_place d depth n.toNat_lt, map_pure, UInt32.ofNat_toNat]

theorem integer_place {i : Int} (h : -2 ^ 63 ≤ i ∧ i < 2 ^ 63) :
    Format.integer ((Tree.int i).place d depth) = pure i := by
  have hnumeric : ((Tree.int i).place d depth).numeric = pure (toString i).toList := by
    rw [Place.numeric, resolve_place, pure_bind]
    rfl
  exact (congrArg (· >>= fun cs => Reading.ofOption (signed? cs)) hnumeric).trans
    (by rw [pure_bind, signed?_intText h]; rfl)

theorem items_place (items : List Tree) :
    Format.items ((Tree.sequence items).place d (depth + 1)) =
      pure (items.map (place d depth)) := by
  have hitems : ((Tree.sequence items).place d (depth + 1)).items =
      pure ((itemNodes items).map ((Tree.sequence items).place d (depth + 1)).part) := by
    rw [Place.items, resolve_place, pure_bind]
    rfl
  refine hitems.trans ?_
  rw [itemNodes_eq_map, List.map_map]
  rfl

theorem members_place (entries : List (String × Tree)) :
    Format.members ((Tree.mapping entries).place d (depth + 1)) =
      pure (entries.map fun e => (e.1, e.2.place d depth)) := by
  have hmembers : ((Tree.mapping entries).place d (depth + 1)).members =
      (entryNodes entries).mapM fun e =>
        d.text e.1 >>= fun key =>
          pure (key, ((Tree.mapping entries).place d (depth + 1)).part e.2) := by
    rw [Place.members, resolve_place, pure_bind]
    rfl
  refine hmembers.trans ?_
  rw [entryNodes_eq_map]
  exact Reading.mapM_eq_pure fun e _ => rfl

/-- A list of items that are each read. -/
theorem list_place {α β : Type} {read : Place → Reading β} {toTree : α → Tree} {f : α → β}
    {items : List α} (h : ∀ x ∈ items, read ((toTree x).place d depth) = pure (f x)) :
    Format.list read ((Tree.sequence (items.map toTree)).place d (depth + 1)) =
      pure (items.map f) := by
  have hitems : (items.map fun x => (toTree x).place d depth).mapM read = pure (items.map f) :=
    Reading.mapM_eq_pure h
  rw [Format.list, items_place, pure_bind, List.map_map]
  exact hitems

theorem list_place_self {α : Type} {read : Place → Reading α} {toTree : α → Tree} {items : List α}
    (h : ∀ x ∈ items, read ((toTree x).place d depth) = pure x) :
    Format.list read ((Tree.sequence (items.map toTree)).place d (depth + 1)) = pure items :=
  (list_place (f := id) d depth h).trans (by rw [List.map_id])

/-- A map of values that are each read. -/
theorem map_place {α : Type} {read : Place → Reading α} {toTree : α → Tree} {m : StringMap α}
    (h : ∀ e ∈ m.entries, read ((toTree e.2).place d depth) = pure e.2) :
    Format.map read ((m.toTree toTree).place d (depth + 1)) = pure m := by
  rw [Format.map, StringMap.toTree, members_place, pure_bind, List.map_map,
    Reading.mapM_eq_pure (f := id)]
  · simp [StringMap.ofList_entries]
  · intro e he
    simp [h e he]

theorem optional_scalar {style : ScalarStyle} {s : String}
    (h : style = .plain → (s.isEmpty || isNullName s) = false) :
    Format.optional (⟨d, some (.scalar bare style s), depth⟩ : Place) =
      pure (some ⟨d, some (.scalar bare style s), depth⟩) := by
  by_cases hstyle : style = .plain
  · subst hstyle
    have hoptional : Format.optional (⟨d, some (.scalar bare .plain s), depth⟩ : Place) =
        (Reading.ofOption (some (s.isEmpty || isNullName s)) >>= fun nothing =>
          if nothing then pure none
          else pure (some ⟨d, some (.scalar bare .plain s), depth⟩)) := rfl
    rw [hoptional, h rfl]
    rfl
  · cases style with
    | plain => exact absurd rfl hstyle
    | _ => rfl

theorem not_null_word {v : Tree} {w : String} (h : v.word? = some w) (hv : v ≠ .null) :
    (w.isEmpty || isNullName w) = false := by
  cases v with
  | null => exact absurd rfl hv
  | bool b => cases b <;> cases h <;> decide
  | int i => cases h; exact (not_named_intText i).1
  | float x =>
      cases h
      cases x with
      | finite negative a => exact not_null_of_meaning (by simp [meaning_floatText])
      | infinite negative => cases negative <;> decide
      | nan => decide
  | text s => cases h
  | sequence items => cases h
  | mapping entries => cases h

-- Only plain scalars can say that nothing stands here, and only null is written as one.
theorem optional_place {v : Tree} (hv : v ≠ .null) :
    Format.optional (v.place d depth) = pure (some (v.place d depth)) := by
  cases hword : v.word? with
  | some w =>
      rw [place, node_word hword]
      exact optional_scalar d depth fun _ => not_null_word hword hv
  | none =>
      cases v with
      | text s =>
          refine optional_scalar d depth fun hstyle => ?_
          obtain ⟨first, rest, -, -, hmeaning⟩ := isPlain_of_styleOf hstyle
          exact not_null_of_meaning (by simp [hmeaning])
      | sequence items => rfl
      | mapping entries => rfl
      | bool b => cases b <;> cases hword
      | _ => cases hword

-- ## Records

/-- The fields of a mapping, where they stand. -/
def fields (entries : List (String × Tree)) : Fields Place :=
  ⟨entries.map fun e => (e.1, e.2.place d depth)⟩

/-- The fields of a record are its entries, if all of them are asked for. -/
theorem read_fields {names : List String} {entries : List (String × Tree)}
    (h : (entries.map Prod.fst).Sublist names) (hnames : names.Nodup) :
    Fields.read names ((Tree.mapping entries).place d (depth + 1)) =
      pure (fields d depth entries) := by
  have hkeys : ((entries.map fun e => (e.1, e.2.place d depth)).map Prod.fst) =
      entries.map Prod.fst := by
    rw [List.map_map]
    rfl
  have hknown : (entries.map fun e => (e.1, e.2.place d depth)).filter
      (fun m => names.contains m.1) = entries.map fun e => (e.1, e.2.place d depth) := by
    refine List.filter_eq_self.mpr fun m hm => ?_
    obtain ⟨e, he, rfl⟩ := List.mem_map.mp hm
    exact List.contains_iff_mem.mpr (h.subset (List.mem_map_of_mem he))
  have hselect : Fields.select? names (entries.map fun e => (e.1, e.2.place d depth)) =
      some (entries.map fun e => (e.1, e.2.place d depth)) := by
    rw [Fields.select?]
    simp only [hknown]
    exact if_pos (hkeys ▸ h.nodup hnames)
  have hfields : Format.fields names ((Tree.mapping entries).place d (depth + 1)) =
      (Format.members ((Tree.mapping entries).place d (depth + 1)) >>= fun members =>
        .ofOption (Fields.select? names members)) := rfl
  rw [Fields.read, hfields, members_place, pure_bind, hselect]
  rfl

variable {α : Type} {name : String} {read : Place → Reading α} {entries : List (String × Tree)}

theorem lookup_fields (entries : List (String × Tree)) :
    (fields d depth entries).places.lookup name = (entries.lookup name).map (place d depth) := by
  induction entries with
  | nil => rfl
  | cons e entries ih =>
      rw [fields, List.map_cons, List.lookup_cons, List.lookup_cons]
      split
      · rfl
      · exact ih

theorem required_of_lookup {v : Tree} {x : α} (h : entries.lookup name = some v)
    (hread : read (v.place d depth) = pure x) :
    (fields d depth entries).required name read = pure x := by
  rw [Fields.required, lookup_fields, h]
  exact hread

theorem orElse_of_lookup {v : Tree} {x absent : α} (h : entries.lookup name = some v)
    (hread : read (v.place d depth) = pure x) :
    (fields d depth entries).orElse name read absent = pure x := by
  rw [Fields.orElse, lookup_fields, h]
  exact hread

theorem orElse_of_lookup_none {absent : α} (h : entries.lookup name = none) :
    (fields d depth entries).orElse name read absent = pure absent := by
  rw [Fields.orElse, lookup_fields, h]
  rfl

/-- A field that may be missing and is there when it has a value. -/
theorem optional_of_lookup {toTree : α → Tree} {v : Option α}
    (h : entries.lookup name = v.map toTree)
    (hread : ∀ x, v = some x → toTree x ≠ .null ∧ read ((toTree x).place d depth) = pure x) :
    (fields d depth entries).optional name read = pure v := by
  cases v with
  | none => exact orElse_of_lookup_none d depth h
  | some x =>
      obtain ⟨hne, hx⟩ := hread x rfl
      refine orElse_of_lookup d depth h ?_
      rw [optional_place d depth hne, pure_bind]
      simp [hx]

theorem optional_of_lookup_null (h : entries.lookup name = some .null) :
    (fields d depth entries).optional name read = pure none :=
  orElse_of_lookup d depth h rfl

-- ## Tags

theorem content_text (s : String) : d.content depth (Tree.text s).node = pure (.text s) := by
  rw [node, Document.content_scalar, scalarContent?_text]
  rfl

theorem content_float (negative : Bool) (a : Magnitude) :
    d.content depth (Tree.float (.finite negative a)).node = pure (.float (.finite negative a)) := by
  rw [node, Document.content_scalar, scalarContent?_float]
  rfl

theorem content_word (n : UInt32) : d.content depth (wordTree n).node = pure (.int n.toNat) := by
  have hfits : (-2 ^ 63 : Int) ≤ n.toNat ∧ (n.toNat : Int) < 2 ^ 64 := by
    have := n.toNat_lt
    omega
  rw [wordTree, node, Document.content_scalar, scalarContent?_int hfits]
  rfl

theorem content_words (ns : List UInt32) :
    d.content (depth + 1) (Tree.sequence (ns.map wordTree)).node =
      pure (.list (ns.map fun n => .int n.toNat)) := by
  have hitems : (ns.map fun n => (wordTree n).node).mapM (d.content depth) =
      pure (ns.map fun n => .int n.toNat) :=
    Reading.mapM_eq_pure fun n _ => content_word d depth n
  rw [node, itemNodes_eq_map, List.map_map, Document.content]
  simp only [Document.follow, isOwnTag, bare, pure_bind]
  exact (congrArg (Content.list <$> ·) hitems).trans (map_pure _ _)

section Tagged

-- Parts of a mapping with their content, none of which is named like the tag.
variable {p : Place} {name : String} {parts : List (String × Tree × Content)}
  (h : ∀ x ∈ parts, x.1 ≠ name ∧ p.document.content (p.depth - 1) x.2.1.node = pure x.2.2)

theorem content_key (s : String) :
    p.document.content (p.depth - 1) (.scalar bare (styleOf s) s) = pure (.text s) :=
  content_text _ _ s

include h in
theorem untag_parts : p.untag name (entryNodes (parts.map fun x => (x.1, x.2.1))) =
    pure ([], parts.map fun x => (.text x.1, x.2.2)) := by
  induction parts with
  | nil => rfl
  | cons x parts ih =>
      obtain ⟨hname, hcontent⟩ := h x List.mem_cons_self
      rw [List.map_cons, entryNodes, Place.untag, content_key, pure_bind]
      simp [hcontent, hname, ih fun y hy => h y (List.mem_cons_of_mem _ hy)]

include h in
/-- What is tagged under its first name, with the content of the rest. -/
theorem tagged_parts {kind : String} (hdepth : p.depth ≠ 0)
    (hp : p.resolve = pure (Tree.mapping ((name, .text kind) ::
      parts.map fun x => (x.1, x.2.1))).node) :
    Format.tagged name p = pure (kind, .map (parts.map fun x => (.text x.1, x.2.2))) := by
  have huntag : p.untag name (entryNodes ((name, .text kind) ::
      parts.map fun x => (x.1, x.2.1))) = pure ([kind], parts.map fun x => (.text x.1, x.2.2)) := by
    have htext : p.document.text (Tree.text kind).node = pure kind := rfl
    rw [entryNodes, Place.untag, content_key, pure_bind, untag_parts h]
    simp [htext]
  have htagged : Format.tagged name p = p.tagged name := rfl
  rw [htagged, Place.tagged, hp, pure_bind, node]
  simp [isOwnTag, bare, hdepth, huntag]

end Tagged

end Tree

end Yaml

end SimStudio
