import SimStudio.Configuration.Writer
import SimStudio.Proofs.Configuration.Values

/-!
# What a Writer Writes

A writer goes through a value and writes line after line, and the mark of an item may wait
through many calls before some line takes it. The lines of a value are known without a
writer, so it is enough to see that these are the lines that are written (`Writer.value_eq`,
by recursion on the value). The one place where the two differ is the first member of an
object in a list. There the writer lets the mark wait, and the lines have it already; they
agree because such an object has a member that is not null, whose line begins with a key
(`Writer.putAll_markFirst`).

While no mark waits, lines are written as they are. So a waiting mark changes the first line
of a field and nothing else, and nothing waits behind a field.

The lines below the key of a list are those of its items, one after the other. Each item
begins with a mark in the column of the list, and its other lines are empty or deeper, so
that none of them is taken for an item, whatever its text looks like. Hence there are as
many marks in that column as there are items.

## Main definitions

* `Writer.lead`: What stands before a key.
* `linesOf`: The lines of a text.
* `isItemStart`: A line with a mark in the column of a level.
* `linesOfItem`: The lines of an item.

## Theorems

* `Writer.putAll_of_idle`: Without a mark that waits, lines are written as they are.
* `Writer.value_eq`: A writer writes the lines of a value.
* `Writer.exists_value_eq`: A field takes the mark that waits, on its first line.
* `exists_linesOfItem_eq`: An item begins with a mark, and its other lines are deeper.
* `filter_linesOfItems`: There are as many marks as items.
* `Writer.value_marks_items`: What is appended for any value.
-/

namespace SimStudio

theorem renderLines_cons (l : Line) (lines : List Line) :
    renderLines (l :: lines) = l.render ++ "\n" ++ renderLines lines := by
  unfold renderLines
  rw [List.map_cons, String.join_cons]

namespace Writer

-- ## Lines

theorem putAll_append (w : Writer) (xs ys : List Line) :
    w.putAll (xs ++ ys) = (w.putAll xs).putAll ys := List.foldl_append

/-- A line that has a mark of its own is one for which the mark waits. -/
theorem put_marked (w : Writer) (level : Nat) (text : String) :
    w.put (.entry level true text) = w.beginItem.put (.entry level false text) := by
  simp only [put, beginItem, Bool.true_or, Bool.false_or]

/-- Lines of which the first has a mark are lines for which it waits, if the first begins with
    a key. -/
theorem putAll_markFirst (w : Writer) (level : Nat) (text : String) (rest : List Line) :
    w.putAll (markFirst (.entry level false text :: rest)) =
      w.beginItem.putAll (.entry level false text :: rest) := by
  unfold putAll markFirst
  rw [List.foldl_cons, List.foldl_cons]
  unfold Line.mark
  rw [put_marked]

theorem put_of_idle {w : Writer} (h : w.itemPending = false) (l : Line) :
    w.put l = ⟨w.text ++ l.render ++ "\n", false⟩ := by
  cases l with
  | entry level item text => simp only [put, h, Bool.or_false]
  | content level text => simp only [put, h]
  | blank => simp only [put, h, Line.render, String.append_empty]

/-- Without a mark that waits, lines are written as they are, and no mark waits then. -/
theorem putAll_of_idle {w : Writer} (h : w.itemPending = false) (lines : List Line) :
    w.putAll lines = ⟨w.text ++ renderLines lines, false⟩ := by
  induction lines generalizing w with
  | nil =>
      unfold putAll renderLines
      rw [List.foldl_nil, List.map_nil, String.join_nil, String.append_empty, ← h]
  | cons l lines ih =>
      have hput := put_of_idle h l
      have hrest := ih (w := w.put l) (by rw [hput])
      unfold putAll at hrest ⊢
      rw [List.foldl_cons, hrest, hput, renderLines_cons]
      simp only [String.append_assoc]

-- ## Values

/-- The members of an object that is not all null begin with a key. -/
theorem exists_memberLines_eq (level : Nat) {members : List (String × Json)}
    (h : ¬ allNull members = true) :
    ∃ text rest, memberLines level members = .entry level false text :: rest := by
  rw [memberLines_eq]
  cases houtlines : Json.memberOutlines members with
  | nil => exact absurd houtlines (Json.memberOutlines_ne_nil h)
  | cons m rest =>
      obtain ⟨key, v⟩ := m
      exact ⟨_, _, rfl⟩

mutual

/-- A writer writes the lines of a value. -/
theorem value_eq (w : Writer) (level : Nat) (key : String) : ∀ v : Json,
    w.value level key v = w.putAll (valueField level key v)
  | .null => rfl
  | .bool _ => rfl
  | .number _ => rfl
  | .text s => by
      rw [value, valueField]
      split <;> rfl
  | .array items => by
      rw [value, valueField]
      split
      · rfl
      · rw [each_eq (w.put (heading level key)) (level + 1) items]
        rfl
  | .object members => by
      rw [value, valueField]
      split
      · rfl
      · rw [fields_eq (w.put (heading level key)) (level + 1) members]
        rfl

theorem each_eq (w : Writer) (level : Nat) : ∀ items : List Json,
    w.each level items = w.putAll (itemLines level items)
  | [] => rfl
  | v :: rest => by
      rw [each, itemLines, putAll_append, item_eq w level v, each_eq _ level rest]

theorem item_eq (w : Writer) (level : Nat) : ∀ v : Json,
    w.item level v = w.putAll (itemBlock level v)
  | .object members => by
      rw [item, itemBlock]
      split
      · rfl
      · rename_i hall
        -- The mark waits for the first key, and the object has one.
        obtain ⟨text, rest, hlines⟩ := exists_memberLines_eq (level + 1) hall
        rw [fields_eq w.beginItem (level + 1) members, hlines, putAll_markFirst]
  | .array _ => rfl
  | .null => rfl
  | .bool _ => rfl
  | .number _ => rfl
  | .text _ => rfl

theorem fields_eq (w : Writer) (level : Nat) : ∀ members : List (String × Json),
    w.fields level members = w.putAll (memberLines level members)
  | [] => rfl
  | (key, v) :: rest => by
      rw [fields, memberLines, putAll_append, value_eq w level key v, fields_eq _ level rest]

end

/-- What stands before a key: the columns of its level, or those of the level before it and
    the mark that waits. -/
def lead (w : Writer) (level : Nat) : String :=
  if w.itemPending then Line.indentation (level - 1) ++ "- " else Line.indentation level

theorem put_entry (w : Writer) (level : Nat) (text : String) :
    w.put (.entry level false text) = ⟨w.text ++ w.lead level ++ text ++ "\n", false⟩ := by
  unfold lead
  cases hpending : w.itemPending <;>
    simp only [put, hpending, Bool.or_true, Bool.or_false, Line.render, String.append_assoc,
      if_true, if_neg Bool.false_ne_true]

/-- Lines that begin with a key take the mark that waits, on the first of them. -/
theorem putAll_entry (w : Writer) (level : Nat) (text : String) (rest : List Line) :
    w.putAll (.entry level false text :: rest) =
      ⟨w.text ++ w.lead level ++ text ++ "\n" ++ renderLines rest, false⟩ := by
  have hfirst := put_entry w level text
  have hrest := putAll_of_idle (w := w.put (.entry level false text)) (by rw [hfirst]) rest
  unfold putAll at hrest ⊢
  rw [List.foldl_cons, hrest, hfirst]

/-- A value that is not null takes the mark that waits, on its first line. -/
theorem exists_value_eq (level : Nat) (key : String) {v : Json} (hv : v ≠ .null) :
    ∃ first below, '\n' ∉ first.toList ∧ (keyText key ++ ":").toList <+: first.toList ∧
      ∀ w : Writer, w.value level key v =
        ⟨w.text ++ w.lead level ++ first ++ "\n" ++ below, false⟩ := by
  have hnull : v.isNull = false := by cases v <;> first | rfl | exact absurd rfl hv
  have hlines := valueField_eq level key v
  rw [hnull, if_neg Bool.false_ne_true] at hlines
  have hfits := fits_valueField level key v (Outline.keyLine level key v.outline)
    (by rw [hlines]; exact List.mem_cons_self)
  refine ⟨keyText key ++ ":" ++ v.outline.suffix,
    renderLines (Outline.nestedLines (level + 1) v.outline), hfits.single, ?_, fun w => ?_⟩
  · rw [String.toList_append (s := keyText key ++ ":")]
    exact List.prefix_append _ _
  · rw [value_eq, hlines, Outline.keyLine, putAll_entry]

end Writer

-- ## Items

/-- The lines of a text in which each line has its end. -/
def linesOf (text : String) : List (List Char) := (Text.split '\n' text.toList).dropLast

/-- A mark in the column of a level, with nothing but the columns before it. -/
def isItemStart (level : Nat) (line : List Char) : Bool :=
  (indented level ['-', ' ']).isPrefixOf line

/-- The lines of an item that is written by itself. -/
def linesOfItem (level : Nat) (v : Json) : List (List Char) :=
  linesOf (({} : Writer).item level v).text

theorem linesOf_renderLines {lines : List Line} (h : ∀ l ∈ lines, l.Fits 0) :
    linesOf (renderLines lines) = rendered lines := by
  unfold linesOf rendered
  rw [split_renderLines h, List.dropLast_concat]

theorem linesOfItem_eq (level : Nat) (v : Json) :
    linesOfItem level v = rendered (itemBlock level v) := by
  unfold linesOfItem
  rw [Writer.item_eq, Writer.putAll_of_idle rfl, String.empty_append]
  exact linesOf_renderLines fun l hl => (fits_itemBlock level v l hl).mono (Nat.zero_le level)

/-- A line that is empty or deeper than a level does not begin an item there. -/
theorem isItemStart_of_isDeep {level : Nat} {line : List Char}
    (h : Outline.isDeep (level + 1) line = true) : isItemStart level line = false := by
  rw [Bool.eq_false_iff]
  intro hstart
  obtain ⟨rest, hrest⟩ := List.isPrefixOf_iff_prefix.mp hstart
  have hline : line = indented level ('-' :: ' ' :: rest) := by
    rw [← hrest, indented, indented, List.append_assoc]
    rfl
  rw [hline, Outline.isDeep_indented (by decide)] at h
  exact Bool.false_ne_true h

/-- An item begins with a mark in the column of its level, and its other lines are empty or
    deeper. -/
theorem exists_linesOfItem_eq (level : Nat) (v : Json) :
    ∃ first below, linesOfItem level v = first :: below ∧ isItemStart level first = true ∧
      ∀ line ∈ below, Outline.isDeep (level + 1) line = true := by
  obtain ⟨cs, below, hlines, hdeep, -⟩ :=
    Outline.rendered_itemBlock level v.isItem_itemOutline v.laidOut.atItem
  refine ⟨indented level ('-' :: ' ' :: cs), below, ?_, ?_, hdeep⟩
  · rw [linesOfItem_eq, itemBlock_eq, hlines]
  · have hmark : indented level ('-' :: ' ' :: cs) = indented level ['-', ' '] ++ cs := by
      rw [indented, indented, List.append_assoc]
      rfl
    unfold isItemStart
    rw [hmark]
    exact List.isPrefixOf_iff_prefix.mpr (List.prefix_append _ _)

/-- Of the lines of an item only the first begins one. -/
theorem filter_linesOfItem (level : Nat) (v : Json) :
    (linesOfItem level v).filter (isItemStart level) = [(linesOfItem level v).headD []] := by
  obtain ⟨first, below, hlines, hfirst, hdeep⟩ := exists_linesOfItem_eq level v
  have hbelow : below.filter (isItemStart level) = [] := by
    rw [List.filter_eq_nil_iff]
    intro line hline
    rw [isItemStart_of_isDeep (hdeep line hline)]
    exact Bool.false_ne_true
  rw [hlines, List.filter_cons_of_pos hfirst, hbelow]
  rfl

theorem rendered_itemLines (level : Nat) (items : List Json) :
    rendered (itemLines level items) = items.flatMap (linesOfItem level) := by
  induction items with
  | nil => rfl
  | cons v rest ih => rw [itemLines, rendered_append, ih, List.flatMap_cons, linesOfItem_eq]

/-- As many lines begin an item as there are items, and in their order. -/
theorem filter_linesOfItems (level : Nat) (items : List Json) :
    (items.flatMap (linesOfItem level)).filter (isItemStart level) =
      items.map fun v => (linesOfItem level v).headD [] := by
  rw [List.filter_flatMap, List.map_eq_flatMap]
  exact List.flatMap_congr fun v _ => filter_linesOfItem level v

/-- The lines of items that do not begin one are empty or deeper. -/
theorem isDeep_of_mem_linesOfItem {level : Nat} {v : Json} {line : List Char}
    (hmem : line ∈ linesOfItem level v) (hstart : isItemStart level line = false) :
    Outline.isDeep (level + 1) line = true := by
  obtain ⟨first, below, hlines, hfirst, hdeep⟩ := exists_linesOfItem_eq level v
  rw [hlines] at hmem
  rcases List.mem_cons.mp hmem with rfl | hmem
  · rw [hfirst] at hstart
    cases hstart
  · exact hdeep line hmem

/-- Below the key of a list stand the lines of its items, one after the other. -/
theorem exists_items_eq (level : Nat) (key : String) {items : List Json}
    (h : items.all isInline = false) :
    ∃ below, below.toList = (linesOf below).flatMap (· ++ ['\n']) ∧
      linesOf below = items.flatMap (linesOfItem (level + 1)) ∧
      ∀ w : Writer, w.value level key (.array items) =
        ⟨w.text ++ w.lead level ++ keyText key ++ ":\n" ++ below, false⟩ := by
  have hlines : linesOf (renderLines (itemLines (level + 1) items)) =
      rendered (itemLines (level + 1) items) :=
    linesOf_renderLines fun l hl => (fits_itemLines (level + 1) items l hl).mono (Nat.zero_le _)
  refine ⟨renderLines (itemLines (level + 1) items), ?_, ?_, fun w => ?_⟩
  · rw [toList_renderLines, hlines]
    rfl
  · rw [hlines, rendered_itemLines]
  · have hcolon : ":\n" = ":" ++ "\n" := rfl
    rw [Writer.value_eq, valueField, h, if_neg Bool.false_ne_true, heading, Writer.putAll_entry,
      hcolon]
    simp only [String.append_assoc]

/-- A field only appends to what is written. A null appends nothing, and any other value takes
    the mark that waits, on the first of the lines it appends. Below the key of a list that is
    not written on its line, there are as many marks in its column as there are items, each on
    the first line of its item and in their order, and any other line is empty or deeper. -/
theorem Writer.value_marks_items (level : Nat) (key : String) :
    (∀ w : Writer, w.value level key .null = w) ∧
    (∀ v : Json, v ≠ .null →
      ∃ first below, '\n' ∉ first.toList ∧ (keyText key ++ ":").toList <+: first.toList ∧
        ∀ w : Writer, w.value level key v =
          ⟨w.text ++ w.lead level ++ first ++ "\n" ++ below, false⟩) ∧
    (∀ items : List Json, items.all isInline = false →
      ∃ below,
        (∀ w : Writer, w.value level key (.array items) =
          ⟨w.text ++ w.lead level ++ keyText key ++ ":\n" ++ below, false⟩) ∧
        below.toList = (linesOf below).flatMap (· ++ ['\n']) ∧
        linesOf below = items.flatMap (linesOfItem (level + 1)) ∧
        (linesOf below).filter (isItemStart (level + 1)) =
          items.map (fun v => (linesOfItem (level + 1) v).headD []) ∧
        ((linesOf below).filter (isItemStart (level + 1))).length = items.length ∧
        ∀ line ∈ linesOf below, isItemStart (level + 1) line = false →
          Outline.isDeep (level + 2) line = true) := by
  refine ⟨fun w => rfl, fun v hv => exists_value_eq level key hv, fun items h => ?_⟩
  obtain ⟨below, hends, hlines, hvalue⟩ := exists_items_eq level key h
  have hstarts : (linesOf below).filter (isItemStart (level + 1)) =
      items.map fun v => (linesOfItem (level + 1) v).headD [] := by
    rw [hlines, filter_linesOfItems]
  refine ⟨below, hvalue, hends, hlines, hstarts, by rw [hstarts, List.length_map], ?_⟩
  intro line hmem hstart
  rw [hlines] at hmem
  obtain ⟨v, _, hv⟩ := List.mem_flatMap.mp hmem
  exact isDeep_of_mem_linesOfItem hv hstart

/-- An object whose first member is left out, with a text that looks like items, a list, a null
    and a text with a mark of its own. -/
def Json.listed : List Json :=
  [.object [("a", .null), ("note", .text "x\n- y\n    - z")], .array [.text "- q"], .null,
    .text "- r"]

theorem Writer.value_marks_items_listed :
    ∃ below, (⟨"", true⟩ : Writer).value 1 "default" (.array Json.listed) =
        ⟨"- default:\n" ++ below, false⟩ ∧
      ((linesOf below).filter (isItemStart 2)).length = 4 := by
  obtain ⟨below, hvalue, -, -, -, hcount, -⟩ :=
    (Writer.value_marks_items 1 "default").2.2 Json.listed (by decide)
  refine ⟨below, ?_, hcount⟩
  rw [hvalue]
  rfl

end SimStudio
