import SimStudio.Proofs.Configuration.Prose
import SimStudio.Proofs.Text.Quoting

/-!
# Outlines

The layout of a configuration without the meaning of its fields: a tree of keys
whose leaves are texts. Whatever is laid out in this way can be told from its
lines, at every depth, and no matter what the texts say.

The lines below a key are indented further than the key, and empty lines belong
to what stands above them. So a field reaches up to the next line that begins no
further to the right than the field itself: `Text.run_unique` takes it off. What
is left is to tell apart the four things that can stand at a key. Fields and
items leave the line of the key, and the first line below it begins with the
mark of an item or it does not. A block begins with a bar, which no other text
on the line of a key does.

An item may be a text or an object, whose first field then stands behind the
mark. The two are told apart by the colon behind the key, so a text must not
look like a key and a colon; `Outline.IsItem` says that.

## Main definitions

* `Outline`: What stands at a key.
* `Outline.nestedLines`, `Outline.memberLines`, `Outline.itemLines`: Its lines.
* `Outline.Lawful`: The texts cannot be taken for something else.
* `Outline.IsItem`: An item of a list.
* `Outline.Unique`: What stands at a key is known from what follows its colon.

## Theorems

* `Outline.unique`: The lines below a key determine what stands there.
* `Outline.rendered_memberLines_injective`: Lines determine the fields.
-/

namespace SimStudio

/-- What stands at a key. -/
inductive Outline
  /-- A text on the line of the key. -/
  | line (text : String)
  /-- A text as a block. -/
  | prose (text : String)
  /-- Fields below the key. -/
  | fields (members : List (String × Outline))
  /-- Items below the key. -/
  | items (each : List Outline)
  deriving Inhabited

/-- The characters of lines, without their ends. -/
def rendered (lines : List Line) : List (List Char) := lines.map fun l => l.render.toList

@[simp]
theorem rendered_nil : rendered [] = [] := rfl

@[simp]
theorem rendered_cons (l : Line) (lines : List Line) :
    rendered (l :: lines) = l.render.toList :: rendered lines := rfl

@[simp]
theorem rendered_append (xs ys : List Line) : rendered (xs ++ ys) = rendered xs ++ rendered ys :=
  List.map_append

namespace Outline

/-- What stands behind the colon of a key. -/
def suffix : Outline → String
  | line text => " " ++ text
  | prose text => " " ++ proseHeader text
  | fields _ => ""
  | items _ => ""

/-- The line of a key. -/
def keyLine (level : Nat) (key : String) (v : Outline) : Line :=
  .entry level false (keyText key ++ ":" ++ v.suffix)

mutual

/-- The lines below a key. -/
def nestedLines (level : Nat) : Outline → List Line
  | line _ => []
  | prose text => proseLines level text
  | fields members => memberLines level members
  | items each => itemLines level each

/-- The lines of fields. -/
def memberLines (level : Nat) : List (String × Outline) → List Line
  | [] => []
  | (key, v) :: rest => keyLine level key v :: (nestedLines (level + 1) v ++ memberLines level rest)

/-- The lines of items. -/
def itemLines (level : Nat) : List Outline → List Line
  | [] => []
  | v :: rest => itemBlock level v ++ itemLines level rest

/-- The lines of one item: a text, or an object with its first field behind the
    mark. -/
def itemBlock (level : Nat) : Outline → List Line
  | line text => [.content level ("- " ++ text)]
  | fields members => markFirst (memberLines (level + 1) members)
  | prose _ => []
  | items _ => []

end

/-- A text or an object, of which the text is not a key and a colon. -/
def IsItem : Outline → Prop
  | line text => ∀ key rest, text.toList ≠ (keyText key).toList ++ ':' :: rest
  | fields _ => True
  | prose _ => False
  | items _ => False

/-- The texts cannot be taken for something else, and nothing is empty. -/
inductive Lawful : Outline → Prop
  | line {text : String} (h : text.toList.head? ≠ some '|') : Lawful (line text)
  | prose {text : String} (h : proseBody text.toList ≠ []) : Lawful (prose text)
  | fields {members : List (String × Outline)} (hne : members ≠ [])
      (each : ∀ m ∈ members, m.2.Lawful) : Lawful (fields members)
  | items {each : List Outline} (hne : each ≠ []) (isItem : ∀ v ∈ each, v.IsItem)
      (lawful : ∀ v ∈ each, v.Lawful) : Lawful (items each)

/-- Whether a line belongs to what stands above it: it is empty or has the columns
    of a level in front. -/
def isDeep (level : Nat) (line : List Char) : Bool :=
  line.isEmpty || (List.replicate (2 * level) ' ').isPrefixOf line

theorem isDeep_of_below {level : Nat} {l : Line} (h : l.Below level) :
    isDeep level l.render.toList = true := by
  rcases h.render_eq with heq | ⟨cs, heq⟩
  · rw [heq]
    rfl
  · rw [isDeep, heq, indented, List.isPrefixOf_iff_prefix.mpr (List.prefix_append _ _),
      Bool.or_true]

/-- A line that begins at a level does not belong to a deeper one. -/
theorem isDeep_indented {level : Nat} {c : Char} {cs : List Char} (hc : c ≠ ' ') :
    isDeep (level + 1) (indented level (c :: cs)) = false := by
  have hne : (indented level (c :: cs)).isEmpty = false := by
    rw [List.isEmpty_eq_false_iff]
    exact List.append_ne_nil_of_right_ne_nil _ (List.cons_ne_nil _ _)
  rw [isDeep, hne, Bool.false_or, Bool.eq_false_iff]
  intro hprefix
  obtain ⟨rest, hrest⟩ := List.isPrefixOf_iff_prefix.mp hprefix
  rw [show 2 * (level + 1) = 2 * level + (1 + 1) by omega, ← List.replicate_append_replicate,
    indented, List.append_assoc] at hrest
  exact hc (List.cons.inj (List.append_cancel_left hrest)).1.symm

theorem below_proseLines (level : Nat) (text : String) :
    ∀ l ∈ proseLines level text, l.Below level := by
  intro l hl
  rcases List.mem_append.mp hl with hl | hl
  · obtain ⟨line, _, rfl⟩ := List.mem_map.mp hl
    rw [blockLine]
    split
    · trivial
    · exact Nat.le_refl level
  · rw [List.eq_of_mem_replicate hl]
    trivial

mutual

/-- What stands below a key begins at its level. -/
theorem below_nestedLines (level : Nat) : ∀ v : Outline, ∀ l ∈ nestedLines level v, l.Below level
  | line _ => fun _ hl => absurd hl List.not_mem_nil
  | prose text => below_proseLines level text
  | fields members => below_memberLines level members
  | items each => below_itemLines level each

theorem below_memberLines (level : Nat) :
    ∀ members : List (String × Outline), ∀ l ∈ memberLines level members, l.Below level
  | [] => fun _ hl => absurd hl List.not_mem_nil
  | (key, v) :: rest => by
      intro l hl
      rw [memberLines] at hl
      rcases List.mem_cons.mp hl with rfl | hl
      · exact Nat.le_refl level
      · rcases List.mem_append.mp hl with hl | hl
        · exact (below_nestedLines (level + 1) v l hl).mono (Nat.le_succ level)
        · exact below_memberLines level rest l hl

theorem below_itemLines (level : Nat) :
    ∀ each : List Outline, ∀ l ∈ itemLines level each, l.Below level
  | [] => fun _ hl => absurd hl List.not_mem_nil
  | v :: rest => by
      intro l hl
      rw [itemLines] at hl
      rcases List.mem_append.mp hl with hl | hl
      · exact below_itemBlock level v l hl
      · exact below_itemLines level rest l hl

theorem below_itemBlock (level : Nat) : ∀ v : Outline, ∀ l ∈ itemBlock level v, l.Below level
  | line text => by
      intro l hl
      rw [List.mem_singleton.mp hl]
      exact Nat.le_refl level
  | fields members => by
      have hmembers := below_memberLines (level + 1) members
      intro l hl
      rw [itemBlock] at hl
      cases hlines : memberLines (level + 1) members with
      | nil =>
          rw [hlines] at hl
          exact absurd hl List.not_mem_nil
      | cons first rest =>
          rw [hlines] at hl hmembers
          rcases List.mem_cons.mp hl with rfl | hl
          · exact (hmembers first List.mem_cons_self).mark
          · exact (hmembers l (List.mem_cons_of_mem _ hl)).mono (Nat.le_succ level)
  | prose _ => fun _ hl => absurd hl List.not_mem_nil
  | items _ => fun _ hl => absurd hl List.not_mem_nil

end

/-- The line of a key, as it is rendered. -/
theorem render_keyLine (level : Nat) (key : String) (v : Outline) :
    (keyLine level key v).render.toList =
      indented level ((keyText key).toList ++ ':' :: v.suffix.toList) := by
  rw [Line.toList_render, keyLine]
  simp only [String.toList_append, List.append_assoc]
  rfl

/-- Fields begin at their level, with a character of a key. -/
theorem rendered_memberLines_cons (level : Nat) (key : String) (v : Outline)
    (rest : List (String × Outline)) :
    ∃ c cs, rendered (memberLines level ((key, v) :: rest)) =
        indented level (c :: cs) :: (rendered (nestedLines (level + 1) v) ++
          rendered (memberLines level rest)) ∧
      c :: cs = (keyText key).toList ++ ':' :: v.suffix.toList ∧ c ≠ ' ' ∧ c ≠ '-' := by
  obtain ⟨c, cs, hkey, hc⟩ := exists_keyText_eq key
  refine ⟨c, cs ++ ':' :: v.suffix.toList, ?_, ?_, ?_, ?_⟩
  · rw [memberLines, rendered_cons, render_keyLine, rendered_append, hkey, List.cons_append]
  · rw [hkey, List.cons_append]
  · rintro rfl
    exact absurd hc (by decide)
  · rintro rfl
    exact absurd hc (by decide)

/-- An item begins at its level with a mark, and what follows its first line is
    deeper. -/
theorem rendered_itemBlock (level : Nat) {v : Outline} (hitem : v.IsItem) (hv : v.Lawful) :
    ∃ cs below, rendered (itemBlock level v) = indented level ('-' :: ' ' :: cs) :: below ∧
      (∀ l ∈ below, isDeep (level + 1) l = true) ∧
      ((∃ text, v = line text ∧ cs = text.toList ∧ below = []) ∨
        ∃ members, v = fields members ∧
          rendered (memberLines (level + 1) members) = indented (level + 1) cs :: below) := by
  cases hv with
  | line h =>
      rename_i text
      refine ⟨text.toList, [], ?_, fun _ hl => absurd hl List.not_mem_nil, .inl ⟨text, rfl, rfl, rfl⟩⟩
      rw [itemBlock, rendered_cons, rendered_nil, Line.toList_render]
      simp only [String.toList_append]
      rfl
  | prose h => exact absurd hitem id
  | items hne => exact absurd hitem id
  | fields hne each =>
      rename_i members
      cases members with
      | nil => exact absurd rfl hne
      | cons m rest =>
          obtain ⟨key, v⟩ := m
          obtain ⟨c, cs, hlines, hcs, -, -⟩ := rendered_memberLines_cons (level + 1) key v rest
          refine ⟨c :: cs, _, ?_, ?_, .inr ⟨_, rfl, hlines⟩⟩
          -- The mark stands where the first member would have its last step of indentation.
          · rw [itemBlock, memberLines, markFirst, rendered_cons, rendered_append, hcs]
            refine congrArg (· :: _) ?_
            rw [keyLine, Line.mark, Line.toList_render]
            simp only [Nat.add_sub_cancel, String.toList_append, List.append_assoc]
            rfl
          -- All other lines are lines of the members, which stand one level further in.
          · intro l hl
            have hmem : l ∈ rendered (memberLines (level + 1) ((key, v) :: rest)) := by
              rw [hlines]
              exact List.mem_cons_of_mem _ hl
            obtain ⟨l', hl', rfl⟩ := List.mem_map.mp hmem
            exact isDeep_of_below (below_memberLines (level + 1) _ l' hl')

/-- What begins at a level does not belong to what stands above it. -/
theorem isDeep_memberLines (level : Nat) (members : List (String × Outline)) :
    ∀ l ∈ (rendered (memberLines level members)).head?, isDeep (level + 1) l = false := by
  intro l hl
  cases members with
  | nil => cases hl
  | cons m rest =>
      obtain ⟨key, v⟩ := m
      obtain ⟨c, cs, hlines, -, hspace, -⟩ := rendered_memberLines_cons level key v rest
      rw [hlines, List.head?_cons, Option.mem_def, Option.some.injEq] at hl
      rw [← hl]
      exact isDeep_indented hspace

theorem isDeep_itemLines (level : Nat) {each : List Outline} (hitem : ∀ v ∈ each, v.IsItem)
    (hlawful : ∀ v ∈ each, v.Lawful) :
    ∀ l ∈ (rendered (itemLines level each)).head?, isDeep (level + 1) l = false := by
  intro l hl
  cases each with
  | nil => cases hl
  | cons v rest =>
      obtain ⟨cs, below, hlines, -, -⟩ := rendered_itemBlock level
        (hitem v List.mem_cons_self) (hlawful v List.mem_cons_self)
      rw [itemLines, rendered_append, hlines, List.cons_append, List.head?_cons, Option.mem_def,
        Option.some.injEq] at hl
      rw [← hl]
      exact isDeep_indented (by decide)

theorem isDeep_nestedLines (level : Nat) (v : Outline) :
    ∀ l ∈ rendered (nestedLines level v), isDeep level l = true := by
  intro l hl
  obtain ⟨l', hl', rfl⟩ := List.mem_map.mp hl
  exact isDeep_of_below (below_nestedLines level v l' hl')

/-- What stands at a key is known from what follows its colon. -/
def Unique (v : Outline) : Prop :=
  ∀ (w : Outline) (level : Nat), v.Lawful → w.Lawful → v.suffix = w.suffix →
    rendered (nestedLines level v) = rendered (nestedLines level w) → v = w

/-- Lines determine the fields, if each field is known from what follows its
    colon. -/
theorem memberLines_unique {members : List (String × Outline)}
    (hunique : ∀ m ∈ members, m.2.Unique) {members' : List (String × Outline)} {level : Nat}
    (hlawful : ∀ m ∈ members, m.2.Lawful) (hlawful' : ∀ m ∈ members', m.2.Lawful)
    (heq : rendered (memberLines level members) = rendered (memberLines level members')) :
    members = members' := by
  induction members generalizing members' with
  | nil =>
      cases members' with
      | nil => rfl
      | cons m' rest' =>
          obtain ⟨key', v'⟩ := m'
          cases heq
  | cons m rest ih =>
      obtain ⟨key, v⟩ := m
      cases members' with
      | nil => cases heq
      | cons m' rest' =>
          obtain ⟨key', v'⟩ := m'
          rw [memberLines, memberLines, rendered_cons, rendered_cons, render_keyLine,
            render_keyLine, rendered_append, rendered_append] at heq
          obtain ⟨hkeyLine, hbelow⟩ := List.cons.inj heq
          obtain ⟨rfl, hsuffix⟩ := keyText_unique (List.append_cancel_left hkeyLine)
          -- The field reaches up to the next line that begins at its level.
          obtain ⟨hnested, hrest⟩ := Text.run_unique (isDeep_nestedLines (level + 1) v)
            (isDeep_nestedLines (level + 1) v') (isDeep_memberLines level rest)
            (isDeep_memberLines level rest') hbelow
          have hv := hunique _ List.mem_cons_self v' (level + 1) (hlawful _ List.mem_cons_self)
            (hlawful' _ List.mem_cons_self) (String.toList_inj.mp hsuffix) hnested
          have htail := ih (fun m hm => hunique m (List.mem_cons_of_mem _ hm))
            (fun m hm => hlawful m (List.mem_cons_of_mem _ hm))
            (fun m hm => hlawful' m (List.mem_cons_of_mem _ hm)) hrest
          rw [show v = v' from hv, htail]

/-- A text that stands at an item is not a field. -/
theorem IsItem.ne_memberLines {text : String} (h : (line text).IsItem) {level : Nat}
    {members : List (String × Outline)} {below : List (List Char)} :
    rendered (memberLines level members) ≠ indented level text.toList :: below := by
  intro heq
  cases members with
  | nil => cases heq
  | cons m rest =>
      obtain ⟨key, v⟩ := m
      rw [memberLines, rendered_cons, render_keyLine] at heq
      exact h key _ (List.append_cancel_left (List.cons.inj heq).1).symm

/-- Lines determine the items, if each field is known from what follows its
    colon. -/
theorem itemLines_unique {each : List Outline} (hunique : ∀ v ∈ each, v.Unique)
    {each' : List Outline} {level : Nat} (hitem : ∀ v ∈ each, v.IsItem)
    (hitem' : ∀ v ∈ each', v.IsItem) (hlawful : ∀ v ∈ each, v.Lawful)
    (hlawful' : ∀ v ∈ each', v.Lawful)
    (heq : rendered (itemLines level each) = rendered (itemLines level each')) :
    each = each' := by
  have hnonempty : ∀ {v : Outline} {rest : List Outline}, v.IsItem → v.Lawful →
      rendered (itemLines level (v :: rest)) ≠ [] := by
    intro v rest hi hl hnil
    obtain ⟨cs, below, hlines, -, -⟩ := rendered_itemBlock level hi hl
    rw [itemLines, rendered_append, hlines] at hnil
    cases hnil
  induction each generalizing each' with
  | nil =>
      cases each' with
      | nil => rfl
      | cons v' rest' =>
          exact absurd heq.symm (hnonempty (hitem' v' List.mem_cons_self)
            (hlawful' v' List.mem_cons_self))
  | cons v rest ih =>
      cases each' with
      | nil =>
          exact absurd heq (hnonempty (hitem v List.mem_cons_self) (hlawful v List.mem_cons_self))
      | cons v' rest' =>
          obtain ⟨hi, hitem⟩ := List.forall_mem_cons.mp hitem
          obtain ⟨hi', hitem'⟩ := List.forall_mem_cons.mp hitem'
          obtain ⟨hl, hlawful⟩ := List.forall_mem_cons.mp hlawful
          obtain ⟨hl', hlawful'⟩ := List.forall_mem_cons.mp hlawful'
          obtain ⟨hu, hunique⟩ := List.forall_mem_cons.mp hunique
          obtain ⟨cs, below, hlines, hdeep, hcases⟩ := rendered_itemBlock level hi hl
          obtain ⟨cs', below', hlines', hdeep', hcases'⟩ := rendered_itemBlock level hi' hl'
          -- The first lines are equal. Deeper lines follow up to the next item, and so both blocks
          -- end at the same line.
          rw [itemLines, itemLines, rendered_append, rendered_append, hlines, hlines',
            List.cons_append, List.cons_append] at heq
          obtain ⟨hfirst, hafter⟩ := List.cons.inj heq
          obtain rfl : cs = cs' :=
            (List.cons.inj (List.cons.inj (List.append_cancel_left hfirst)).2).2
          obtain ⟨rfl, hrest⟩ := Text.run_unique hdeep hdeep'
            (isDeep_itemLines level hitem hlawful) (isDeep_itemLines level hitem' hlawful') hafter
          have htail := ih hunique hitem hitem' hlawful hlawful' hrest
          -- A block of one line is never the same as a block of fields.
          have hhead : v = v' := by
            rcases hcases with ⟨text, rfl, rfl, rfl⟩ | ⟨members, rfl, hmembers⟩ <;>
              rcases hcases' with ⟨text', rfl, htext, -⟩ | ⟨members', rfl, hmembers'⟩
            · rw [String.toList_inj.mp htext]
            · exact absurd hmembers' hi.ne_memberLines
            · rw [htext] at hmembers
              exact absurd hmembers hi'.ne_memberLines
            · exact hu _ (level + 1) hl hl' rfl (hmembers.trans hmembers'.symm)
          rw [hhead, htail]

/-- Fields are not items. -/
theorem rendered_memberLines_ne {level : Nat} {members : List (String × Outline)}
    {each : List Outline} (hne : members ≠ []) (hitem : ∀ v ∈ each, v.IsItem)
    (hlawful : ∀ v ∈ each, v.Lawful) :
    rendered (memberLines level members) ≠ rendered (itemLines level each) := by
  intro heq
  cases members with
  | nil => exact hne rfl
  | cons m rest =>
      obtain ⟨key, v⟩ := m
      obtain ⟨c, cs, hlines, -, -, hmark⟩ := rendered_memberLines_cons level key v rest
      rw [hlines] at heq
      cases each with
      | nil => cases heq
      | cons w rest' =>
          obtain ⟨cs', below, hlines', -, -⟩ := rendered_itemBlock level
            (hitem w List.mem_cons_self) (hlawful w List.mem_cons_self)
          rw [itemLines, rendered_append, hlines', List.cons_append] at heq
          exact hmark (List.cons.inj (List.append_cancel_left (List.cons.inj heq).1)).1

theorem suffix_line_ne {text : String} {v : Outline} (hv : v.suffix = "") :
    (line text).suffix ≠ v.suffix := by
  rw [hv, suffix]
  intro h
  have hlist := congrArg String.toList h
  rw [String.toList_append] at hlist
  cases hlist

theorem suffix_prose_ne {text : String} {v : Outline} (hv : v.suffix = "") :
    (prose text).suffix ≠ v.suffix := by
  have hheader : (line (proseHeader text)).suffix ≠ v.suffix := suffix_line_ne hv
  exact hheader

/-- A text on the line of a key is not the header of a block. -/
theorem suffix_line_ne_prose {text text' : String} (h : text.toList.head? ≠ some '|') :
    (line text).suffix ≠ (prose text').suffix := by
  intro heq
  rw [suffix, suffix] at heq
  rw [(String.append_right_inj _).mp heq, proseHeader, String.append_assoc,
    String.toList_append] at h
  exact h rfl

theorem unique_line (text : String) : (line text).Unique := by
  intro w level hv hw hsuffix _
  cases hv with
  | line h =>
      cases hw with
      | line => exact congrArg line ((String.append_right_inj _).mp hsuffix)
      | prose => exact absurd hsuffix (suffix_line_ne_prose h)
      | fields => exact absurd hsuffix (suffix_line_ne rfl)
      | items => exact absurd hsuffix (suffix_line_ne rfl)

theorem unique_prose (text : String) : (prose text).Unique := by
  intro w level hv hw hsuffix hlines
  cases hv with
  | prose h =>
      cases hw with
      | line h' => exact absurd hsuffix.symm (suffix_line_ne_prose h')
      | prose h' =>
          exact congrArg prose (prose_unique h h' ((String.append_right_inj _).mp hsuffix) hlines)
      | fields => exact absurd hsuffix (suffix_prose_ne rfl)
      | items => exact absurd hsuffix (suffix_prose_ne rfl)

theorem unique_fields {members : List (String × Outline)} (h : ∀ m ∈ members, m.2.Unique) :
    (fields members).Unique := by
  intro w level hv hw hsuffix hlines
  cases hv with
  | fields hne each =>
      cases hw with
      | line => exact absurd hsuffix.symm (suffix_line_ne rfl)
      | prose => exact absurd hsuffix.symm (suffix_prose_ne rfl)
      | fields _ each' => exact congrArg fields (memberLines_unique h each each' hlines)
      | items _ hitem hlawful => exact absurd hlines (rendered_memberLines_ne hne hitem hlawful)

theorem unique_items {each : List Outline} (h : ∀ v ∈ each, v.Unique) : (items each).Unique := by
  intro w level hv hw hsuffix hlines
  cases hv with
  | items _ hitem hlawful =>
      cases hw with
      | line => exact absurd hsuffix.symm (suffix_line_ne rfl)
      | prose => exact absurd hsuffix.symm (suffix_prose_ne rfl)
      | fields hne => exact absurd hlines.symm (rendered_memberLines_ne hne hitem hlawful)
      | items _ hitem' hlawful' =>
          exact congrArg items (itemLines_unique h hitem hitem' hlawful hlawful' hlines)

/-- The lines below a key determine what stands there. -/
theorem unique (v : Outline) : v.Unique := by
  refine @Outline.rec Unique (fun members => ∀ m ∈ members, m.2.Unique)
    (fun each => ∀ v ∈ each, v.Unique) (fun m => m.2.Unique) unique_line unique_prose
    (fun _ => unique_fields) (fun _ => unique_items) ?_ ?_ ?_ ?_ (fun _ _ ih => ih) v
  · exact fun _ hm => absurd hm List.not_mem_nil
  · exact fun _ _ hm hrest => List.forall_mem_cons.mpr ⟨hm, hrest⟩
  · exact fun _ hv => absurd hv List.not_mem_nil
  · exact fun _ _ hv hrest => List.forall_mem_cons.mpr ⟨hv, hrest⟩

/-- Lines determine the fields. -/
theorem rendered_memberLines_injective {level : Nat} {members members' : List (String × Outline)}
    (hlawful : ∀ m ∈ members, m.2.Lawful) (hlawful' : ∀ m ∈ members', m.2.Lawful)
    (heq : rendered (memberLines level members) = rendered (memberLines level members')) :
    members = members' :=
  memberLines_unique (fun m _ => unique m.2) hlawful hlawful' heq

end Outline

end SimStudio
