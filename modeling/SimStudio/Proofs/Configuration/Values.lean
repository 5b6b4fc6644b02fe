import SimStudio.Proofs.Configuration.Outline
import SimStudio.Proofs.Json.Compact

/-!
# Arbitrary Values Read Back

The lines of an arbitrary value determine it, up to members that are null.

A value is laid out by an outline, so its lines determine that outline. What is
left is to go back from outlines to values. Their first character tells the
kinds of values apart just as it does in compact JSON, where a block stands for
a quote, items for a bracket and fields for a brace: `Outline.lead?` is made so
that it agrees with `Json.lead?`. Within a kind the texts of scalars, of lists
on one line and of nested collections are each known to determine their values.

## Main definitions

* `Json.prune`: A value without its members that are null, at every depth.
* `Json.outline`: The outline of a value.

## Theorems

* `valueField_eq`, `memberLines_eq`: Values are laid out by their outlines.
* `Json.inline_injective`: A list on one line determines its items.
* `Json.recovered`: An outline determines the value.
* `Json.laidOut`: These outlines are lawful.
-/

namespace SimStudio

namespace Json

mutual

/-- A value without its members that are null, at every depth. -/
def prune : Json → Json
  | null => null
  | bool b => bool b
  | number n => number n
  | text s => text s
  | array items => array (pruneItems items)
  | object members => object (pruneMembers members)

/-- Items without their members that are null. -/
def pruneItems : List Json → List Json
  | [] => []
  | v :: rest => prune v :: pruneItems rest

/-- Members without those that are null. -/
def pruneMembers : List (String × Json) → List (String × Json)
  | [] => []
  | (key, v) :: rest => if v.isNull then pruneMembers rest else (key, prune v) :: pruneMembers rest

end

/-- The text of a list on one line. -/
def inlineText (items : List Json) : String := "[" ++ ", ".intercalate (items.map scalarItem) ++ "]"

/-- The outline of a prompt. -/
def proseOutline (text : String) : Outline := if isProse text then .prose text else .line (quote text)

mutual

/-- The outline of a value. A null leaves no line, so its outline does not matter. -/
def outline : Json → Outline
  | null => .line ""
  | bool b => .line (bool b).compact
  | number n => .line n.compact
  | text s => if s.toList.contains '\n' then proseOutline s else .line (quote s)
  | array items =>
      if items.all isInline then .line (inlineText items) else .items (itemOutlines items)
  | object members =>
      if allNull members then .line "\x7b\x7d" else .fields (memberOutlines members)

/-- The outlines of items. -/
def itemOutlines : List Json → List Outline
  | [] => []
  | v :: rest => itemOutline v :: itemOutlines rest

/-- The outline of an item. -/
def itemOutline : Json → Outline
  | object members =>
      if allNull members then .line (object members).compact else .fields (memberOutlines members)
  | null => .line null.compact
  | bool b => .line (bool b).compact
  | number n => .line n.compact
  | text s => .line (quote s)
  | array items => .line (array items).compact

/-- The outlines of members, without those that are null. -/
def memberOutlines : List (String × Json) → List (String × Outline)
  | [] => []
  | (key, v) :: rest =>
      if v.isNull then memberOutlines rest else (key, outline v) :: memberOutlines rest

end

/-- Members without those that are null, one by one. -/
theorem pruneMembers_eq (members : List (String × Json)) :
    pruneMembers members = (members.filter fun m => !m.2.isNull).map fun m => (m.1, m.2.prune) := by
  induction members with
  | nil => rfl
  | cons m rest ih =>
      obtain ⟨key, v⟩ := m
      rw [pruneMembers, List.filter_cons]
      cases hv : v.isNull <;> simp [ih]

theorem memberOutlines_eq (members : List (String × Json)) :
    memberOutlines members =
      (members.filter fun m => !m.2.isNull).map fun m => (m.1, m.2.outline) := by
  induction members with
  | nil => rfl
  | cons m rest ih =>
      obtain ⟨key, v⟩ := m
      rw [memberOutlines, List.filter_cons]
      cases hv : v.isNull <;> simp [ih]

theorem pruneItems_eq (items : List Json) : pruneItems items = items.map prune := by
  induction items with
  | nil => rfl
  | cons v rest ih => rw [pruneItems, ih, List.map_cons]

theorem itemOutlines_eq (items : List Json) : itemOutlines items = items.map itemOutline := by
  induction items with
  | nil => rfl
  | cons v rest ih => rw [itemOutlines, ih, List.map_cons]

end Json

namespace Outline

theorem keyLine_line (level : Nat) (key text : String) :
    keyLine level key (line text) = bareField level key text := by
  have hcolon : ": " = ":" ++ " " := rfl
  rw [keyLine, bareField, suffix, hcolon]
  simp only [String.append_assoc]

theorem keyLine_prose (level : Nat) (key text : String) :
    keyLine level key (prose text) = bareField level key (proseHeader text) :=
  keyLine_line level key (proseHeader text)

theorem keyLine_eq_heading (level : Nat) (key : String) {v : Outline} (h : v.suffix = "") :
    keyLine level key v = heading level key := by
  rw [keyLine, h, String.append_empty]
  rfl

/-- A prompt is laid out by its outline. -/
theorem proseField_eq_lines (level : Nat) (key text : String) :
    proseField level key text = keyLine level key (Json.proseOutline text) ::
      nestedLines (level + 1) (Json.proseOutline text) := by
  rw [proseField_eq, Json.proseOutline]
  split
  · rw [keyLine_prose, nestedLines]
  · rw [keyLine_line, nestedLines, quotedField]

end Outline

mutual

/-- A value is laid out by its outline, and a null leaves no line. -/
theorem valueField_eq (level : Nat) (key : String) : ∀ v : Json,
    valueField level key v = if v.isNull then []
      else Outline.keyLine level key v.outline :: Outline.nestedLines (level + 1) v.outline
  | .null => rfl
  | .bool b => by
      have hnull : (Json.bool b).isNull = false := rfl
      rw [valueField, hnull, if_neg Bool.false_ne_true, Json.outline, Outline.keyLine_line,
        Outline.nestedLines]
  | .number n => by
      have hnull : (Json.number n).isNull = false := rfl
      rw [valueField, hnull, if_neg Bool.false_ne_true, Json.outline, Outline.keyLine_line,
        Outline.nestedLines]
  | .text s => by
      have hnull : (Json.text s).isNull = false := rfl
      rw [valueField, hnull, if_neg Bool.false_ne_true, Json.outline]
      split
      · exact Outline.proseField_eq_lines level key s
      · rw [quotedField, Outline.keyLine_line, Outline.nestedLines]
  | .array items => by
      have hnull : (Json.array items).isNull = false := rfl
      rw [valueField, hnull, if_neg Bool.false_ne_true, Json.outline]
      split
      · rw [inlineField, Outline.keyLine_line, Outline.nestedLines, Json.inlineText]
      · rw [Outline.keyLine_eq_heading level key rfl, Outline.nestedLines, itemLines_eq (level + 1)]
  | .object members => by
      have hnull : (Json.object members).isNull = false := rfl
      rw [valueField, hnull, if_neg Bool.false_ne_true, Json.outline]
      split
      · rw [Outline.keyLine_line, Outline.nestedLines]
      · rw [Outline.keyLine_eq_heading level key rfl, Outline.nestedLines,
          memberLines_eq (level + 1)]

/-- Items are laid out by their outlines. -/
theorem itemLines_eq (level : Nat) : ∀ items : List Json,
    itemLines level items = Outline.itemLines level (Json.itemOutlines items)
  | [] => rfl
  | v :: rest => by
      rw [itemLines, Json.itemOutlines, Outline.itemLines, itemBlock_eq level v,
        itemLines_eq level rest]

theorem itemBlock_eq (level : Nat) : ∀ v : Json,
    itemBlock level v = Outline.itemBlock level v.itemOutline
  | .object members => by
      rw [itemBlock, Json.itemOutline]
      split
      · rw [Outline.itemBlock]
      · rw [Outline.itemBlock, memberLines_eq (level + 1)]
  | .array items => by rw [itemBlock, Json.itemOutline, Outline.itemBlock]
  | .null => by
      have hscalar : scalarItem (.null) = Json.null.compact := rfl
      rw [itemBlock, hscalar, Json.itemOutline, Outline.itemBlock] <;> simp
  | .bool b => by
      have hscalar : scalarItem (.bool b) = (Json.bool b).compact := rfl
      rw [itemBlock, hscalar, Json.itemOutline, Outline.itemBlock] <;> simp
  | .number n => by
      have hscalar : scalarItem (.number n) = n.compact := rfl
      rw [itemBlock, hscalar, Json.itemOutline, Outline.itemBlock] <;> simp
  | .text s => by
      have hscalar : scalarItem (.text s) = quote s := rfl
      rw [itemBlock, hscalar, Json.itemOutline, Outline.itemBlock] <;> simp

/-- Members are laid out by their outlines. -/
theorem memberLines_eq (level : Nat) : ∀ members : List (String × Json),
    memberLines level members = Outline.memberLines level (Json.memberOutlines members)
  | [] => rfl
  | (key, v) :: rest => by
      rw [memberLines, Json.memberOutlines, valueField_eq level key v, memberLines_eq level rest]
      split
      · rfl
      · rw [Outline.memberLines, List.cons_append]

end

namespace Json

/-- Whether a list can stand on one line does not keep it from beginning and
    ending with brackets. -/
theorem toList_inlineText (items : List Json) :
    (inlineText items).toList =
      '[' :: (", ".toList.intercalate (items.map fun v => (scalarItem v).toList) ++ [']']) := by
  rw [inlineText, String.toList_append, String.toList_append, String.toList_intercalate,
    List.map_map]
  rfl

/-- An item begins with a bracket, a quote or as a word. -/
theorem exists_scalarItem_eq (v : Json) :
    ∃ c cs, (scalarItem v).toList = c :: cs ∧ v.lead? = if isNumberMark c then none else some c := by
  unfold scalarItem
  split
  · rw [quote, String.toList_ofList]
    exact ⟨'"', _, rfl, rfl⟩
  · exact v.exists_compact_eq

theorem lead?_eq_of_scalarItem {v w : Json} {rest rest' : List Char}
    (h : (scalarItem v).toList ++ rest = (scalarItem w).toList ++ rest') : v.lead? = w.lead? := by
  obtain ⟨c, cs, hcs, hlead⟩ := exists_scalarItem_eq v
  obtain ⟨c', cs', hcs', hlead'⟩ := exists_scalarItem_eq w
  rw [hcs, hcs'] at h
  rw [hlead, hlead', (List.cons.inj h).1]

/-- An item determines the value, and where it ends. -/
theorem scalarItem_unique {v w : Json} {rest rest' : List Char} (hrest : EndsWord rest)
    (hrest' : EndsWord rest')
    (h : (scalarItem v).toList ++ rest = (scalarItem w).toList ++ rest') :
    v = w ∧ rest = rest' := by
  have hlead := lead?_eq_of_scalarItem h
  by_cases hv : ∃ s, v = text s
  · obtain ⟨s, rfl⟩ := hv
    cases w with
    | text s' =>
        obtain ⟨rfl, hafter⟩ := quote_unique h
        exact ⟨rfl, hafter⟩
    | _ => simp [lead?] at hlead
  · have hcompact : ∀ v : Json, (∀ s, v ≠ text s) → scalarItem v = v.compact := by
      intro v hv
      cases v with
      | text s => exact absurd rfl (hv s)
      | _ => rfl
    have hw : ∀ s, w ≠ text s := by
      rintro s rfl
      cases v with
      | text s' => exact hv ⟨s', rfl⟩
      | _ => simp [lead?] at hlead
    rw [hcompact v fun s hs => hv ⟨s, hs⟩, hcompact w hw] at h
    exact compact_unique v w rest rest' hrest hrest' h

/-- A list on one line determines its items. -/
theorem inline_injective {items items' : List Json} (h : inlineText items = inlineText items') :
    items = items' := by
  have hlist := congrArg String.toList h
  rw [toList_inlineText, toList_inlineText] at hlist
  have hstart : ∀ v : Json, ∃ c cs, (scalarItem v).toList = c :: cs ∧ c ≠ ']' := by
    intro v
    obtain ⟨c, cs, hcs, hlead⟩ := exists_scalarItem_eq v
    refine ⟨c, cs, hcs, ?_⟩
    rintro rfl
    rw [if_neg (by decide)] at hlead
    cases v <;> simp [lead?] at hlead
  exact (Text.listed_unique (show ',' ≠ ']' by decide) hstart
    (fun v _ w _ r r' hr hr' => scalarItem_unique (.of_mark rfl rfl hr) (.of_mark rfl rfl hr'))
    (List.cons.inj hlist).2).1

end Json

/-- The mark that an outline begins with, where a block stands for a quote. -/
def Outline.lead? : Outline → Option Char
  | line text => text.toList.head?.bind fun c => if isNumberMark c then none else some c
  | prose _ => some '"'
  | fields _ => some '\x7b'
  | items _ => some '['

namespace Json

theorem lead?_line {text : String} {c : Char} {cs : List Char} (h : text.toList = c :: cs) :
    (Outline.line text).lead? = if isNumberMark c then none else some c := by
  rw [Outline.lead?, h, List.head?_cons, Option.bind_some]

theorem lead?_line_compact (v : Json) : (Outline.line v.compact).lead? = v.lead? := by
  obtain ⟨c, cs, hcs, hlead⟩ := v.exists_compact_eq
  rw [lead?_line hcs, hlead]

theorem lead?_line_quote (s : String) : (Outline.line (quote s)).lead? = some '"' := by
  have hcs : (quote s).toList = '"' :: (s.toList.flatMap quotedChar ++ ['"']) := by
    rw [quote, String.toList_ofList]
  rw [lead?_line hcs]
  rfl

theorem lead?_proseOutline (s : String) : (proseOutline s).lead? = some '"' := by
  rw [proseOutline]
  split
  · rfl
  · exact lead?_line_quote s

/-- An outline begins with the mark of its value. -/
theorem lead?_outline {v : Json} (hv : v.isNull = false) : v.outline.lead? = v.lead? := by
  cases v with
  | null => cases hv
  | bool b =>
      rw [outline]
      exact lead?_line_compact _
  | number n =>
      rw [outline]
      exact lead?_line_compact (number n)
  | text s =>
      rw [outline]
      split
      · exact lead?_proseOutline s
      · exact lead?_line_quote s
  | array items =>
      rw [outline]
      split
      · rw [lead?_line (toList_inlineText items)]
        rfl
      · rfl
  | object members =>
      rw [outline]
      split
      · rfl
      · rfl

theorem lead?_itemOutline (v : Json) : v.itemOutline.lead? = v.lead? := by
  cases v with
  | text s =>
      rw [itemOutline]
      exact lead?_line_quote s
  | object members =>
      rw [itemOutline]
      split
      · exact lead?_line_compact _
      · rfl
  | number n =>
      rw [itemOutline]
      exact lead?_line_compact (number n)
  | _ =>
      rw [itemOutline]
      exact lead?_line_compact _

/-- A word stands for a single value, whether at a key or at an item. -/
theorem line_compact_injective {v w : Json} (h : Outline.line v.compact = Outline.line w.compact) :
    v = w :=
  compact_injective (Outline.line.inj h)

/-- Whether a value is no collection and no text, its outline is its text. -/
theorem outline_of_isWord {v : Json} (hv : v.isWord = true) (hnull : v.isNull = false) :
    v.outline = .line v.compact := by
  cases v with
  | null => cases hnull
  | bool b => rw [outline]
  | number n => rw [outline, compact]
  | _ => cases hv

theorem itemOutline_of_isWord {v : Json} (hv : v.isWord = true) :
    v.itemOutline = .line v.compact := by
  cases v with
  | null => rw [itemOutline]
  | bool b => rw [itemOutline]
  | number n => rw [itemOutline, compact]
  | _ => cases hv

theorem isWord_iff (v : Json) : v.isWord = true ↔ v.lead? = none := by
  cases v <;> simp [isWord, lead?]

/-- Whichever form of a text is an outline, it determines the text. -/
theorem textOutline_injective {s t : String} {v w : Outline} (hv : v = .prose s ∨ v = .line (quote s))
    (hw : w = .prose t ∨ w = .line (quote t)) (h : v = w) : s = t := by
  rcases hv with rfl | rfl <;> rcases hw with rfl | rfl
  · exact Outline.prose.inj h
  · cases h
  · cases h
  · exact (quote_unique (congrArg (String.toList · ++ []) (Outline.line.inj h))).1

theorem proseOutline_cases (s : String) :
    proseOutline s = .prose s ∨ proseOutline s = .line (quote s) := by
  rw [proseOutline]
  split
  · exact .inl rfl
  · exact .inr rfl

theorem outline_text_cases (s : String) :
    (text s).outline = .prose s ∨ (text s).outline = .line (quote s) := by
  rw [outline]
  split
  · exact proseOutline_cases s
  · exact .inr rfl

/-- A value is known from its outline, at a key and at an item. -/
structure Recovered (v : Json) : Prop where
  atKey : ∀ w : Json, v.isNull = false → w.isNull = false → v.outline = w.outline →
    v.prune = w.prune
  atItem : ∀ w : Json, v.itemOutline = w.itemOutline → v.prune = w.prune

theorem map_eq_of_map_eq {α β γ δ : Type} {f : α → β} {f' : γ → β} {g : α → δ} {g' : γ → δ}
    {xs : List α} {ys : List γ} (h : ∀ x ∈ xs, ∀ y ∈ ys, f x = f' y → g x = g' y)
    (heq : xs.map f = ys.map f') : xs.map g = ys.map g' := by
  induction xs generalizing ys with
  | nil =>
      cases ys with
      | nil => rfl
      | cons y ys => cases heq
  | cons x xs ih =>
      cases ys with
      | nil => cases heq
      | cons y ys =>
          obtain ⟨hhead, htail⟩ := List.cons.inj heq
          rw [List.map_cons, List.map_cons, h x List.mem_cons_self y List.mem_cons_self hhead,
            ih (fun a ha b hb => h a (List.mem_cons_of_mem _ ha) b (List.mem_cons_of_mem _ hb)) htail]

/-- Members are known from their outlines. -/
theorem pruneMembers_eq_of_outlines {members members' : List (String × Json)}
    (h : ∀ m ∈ members, m.2.Recovered) (heq : memberOutlines members = memberOutlines members') :
    pruneMembers members = pruneMembers members' := by
  have hnull : ∀ {members : List (String × Json)} {m : String × Json},
      m ∈ members.filter (fun m => !m.2.isNull) → m ∈ members ∧ m.2.isNull = false := by
    intro members m hm
    obtain ⟨hmem, hnull⟩ := List.mem_filter.mp hm
    exact ⟨hmem, by simpa using hnull⟩
  rw [memberOutlines_eq, memberOutlines_eq] at heq
  rw [pruneMembers_eq, pruneMembers_eq]
  refine map_eq_of_map_eq (fun m hm m' hm' houtline => ?_) heq
  obtain ⟨hkey, hvalue⟩ := Prod.mk.inj houtline
  rw [hkey, (h m (hnull hm).1).atKey m'.2 (hnull hm).2 (hnull hm').2 hvalue]

theorem pruneItems_eq_of_outlines {items items' : List Json} (h : ∀ v ∈ items, v.Recovered)
    (heq : itemOutlines items = itemOutlines items') : pruneItems items = pruneItems items' := by
  rw [itemOutlines_eq, itemOutlines_eq] at heq
  rw [pruneItems_eq, pruneItems_eq]
  exact map_eq_of_map_eq (fun v hv w _ houtline => (h v hv).atItem w houtline) heq

/-- Nothing is left of members that are all null. -/
theorem pruneMembers_of_allNull {members : List (String × Json)} (h : allNull members = true) :
    pruneMembers members = [] := by
  rw [pruneMembers_eq, List.map_eq_nil_iff, List.filter_eq_nil_iff]
  intro m hm hnull
  rw [List.all_eq_true.mp h m hm] at hnull
  cases hnull

theorem recovered_of_isWord {v : Json} (hv : v.isWord = true) : v.Recovered := by
  have hlead := (isWord_iff v).mp hv
  constructor
  · intro w hnull hnull' heq
    have hw : w.isWord = true := by
      rw [isWord_iff, ← lead?_outline hnull', ← heq, lead?_outline hnull, hlead]
    rw [outline_of_isWord hv hnull, outline_of_isWord hw hnull'] at heq
    rw [line_compact_injective heq]
  · intro w heq
    have hw : w.isWord = true := by
      rw [isWord_iff, ← lead?_itemOutline, ← heq, lead?_itemOutline, hlead]
    rw [itemOutline_of_isWord hv, itemOutline_of_isWord hw] at heq
    rw [line_compact_injective heq]

theorem recovered_text (s : String) : (text s).Recovered := by
  constructor
  · intro w _ hnull' heq
    have hlead : w.lead? = some '"' := by
      rw [← lead?_outline hnull', ← heq]
      exact lead?_outline rfl
    cases w with
    | text t => rw [textOutline_injective (outline_text_cases s) (outline_text_cases t) heq]
    | _ => simp [lead?] at hlead
  · intro w heq
    have hlead : w.lead? = some '"' := by
      rw [← lead?_itemOutline, ← heq]
      exact lead?_itemOutline (text s)
    cases w with
    | text t =>
        rw [itemOutline, itemOutline] at heq
        rw [textOutline_injective (.inr rfl) (.inr rfl) heq]
    | _ => simp [lead?] at hlead

theorem recovered_array {items : List Json} (h : ∀ v ∈ items, v.Recovered) :
    (array items).Recovered := by
  constructor
  · intro w _ hnull' heq
    -- The first character tells that the other value is a list, too.
    have hlead : w.lead? = some '[' := by
      rw [← lead?_outline hnull', ← heq]
      exact lead?_outline rfl
    cases w with
    | array items' =>
        rw [outline, outline] at heq
        split at heq <;> split at heq
        · rw [inline_injective (Outline.line.inj heq)]
        · cases heq
        · cases heq
        · rw [prune, prune, pruneItems_eq_of_outlines h (Outline.items.inj heq)]
    | _ => simp [lead?] at hlead
  · intro w heq
    have hlead : w.lead? = some '[' := by
      rw [← lead?_itemOutline, ← heq]
      exact lead?_itemOutline (array items)
    cases w with
    | array items' =>
        rw [itemOutline, itemOutline] at heq
        rw [line_compact_injective heq]
    | _ => simp [lead?] at hlead

theorem recovered_object {members : List (String × Json)} (h : ∀ m ∈ members, m.2.Recovered) :
    (object members).Recovered := by
  constructor
  · intro w _ hnull' heq
    -- The first character tells that the other value is an object, too.
    have hlead : w.lead? = some '\x7b' := by
      rw [← lead?_outline hnull', ← heq]
      exact lead?_outline rfl
    cases w with
    | object members' =>
        rw [outline, outline] at heq
        rw [prune, prune]
        split at heq <;> split at heq
        · rename_i hall hall'
          rw [pruneMembers_of_allNull hall, pruneMembers_of_allNull hall']
        · cases heq
        · cases heq
        · rw [pruneMembers_eq_of_outlines h (Outline.fields.inj heq)]
    | _ => simp [lead?] at hlead
  · intro w heq
    have hlead : w.lead? = some '\x7b' := by
      rw [← lead?_itemOutline, ← heq]
      exact lead?_itemOutline (object members)
    cases w with
    | object members' =>
        rw [itemOutline, itemOutline] at heq
        split at heq <;> split at heq
        · rw [line_compact_injective heq]
        · cases heq
        · cases heq
        · rw [prune, prune, pruneMembers_eq_of_outlines h (Outline.fields.inj heq)]
    | _ => simp [lead?] at hlead

/-- Every value is known from its outline. -/
theorem recovered (v : Json) : v.Recovered :=
  v.induction (fun _ => recovered_of_isWord) recovered_text (fun _ => recovered_array)
    (fun _ => recovered_object)

/-- Members are known from their outlines, but for those that are null. -/
theorem memberOutlines_injective {members members' : List (String × Json)}
    (h : memberOutlines members = memberOutlines members') :
    pruneMembers members = pruneMembers members' :=
  pruneMembers_eq_of_outlines (fun m _ => m.2.recovered) h

theorem lawful_line {text : String} (h : (Outline.line text).lead? ≠ some '|') :
    (Outline.line text).Lawful := by
  refine .line (fun hbar => h ?_)
  rw [Outline.lead?, hbar]
  rfl

theorem lead?_ne_bar (v : Json) : v.lead? ≠ some '|' := by
  cases v <;> simp [lead?]

theorem lawful_line_compact (v : Json) : (Outline.line v.compact).Lawful :=
  lawful_line (by rw [lead?_line_compact]; exact v.lead?_ne_bar)

theorem lawful_line_quote (s : String) : (Outline.line (quote s)).Lawful :=
  lawful_line (by rw [lead?_line_quote]; decide)

theorem lawful_proseOutline (s : String) : (proseOutline s).Lawful := by
  rw [proseOutline]
  split
  · rename_i h
    rw [isProse, Bool.not_eq_true', Bool.or_eq_false_iff] at h
    exact .prose (List.isEmpty_eq_false_iff.mp h.1)
  · exact lawful_line_quote s

/-- A text in quotes is not a key and a colon, since nothing follows it. -/
theorem isItem_line_quote (s : String) : (Outline.line (quote s)).IsItem := by
  intro key rest heq
  rw [keyText] at heq
  split at heq
  · rename_i hkey
    have hquote : '"' ∈ key.toList ++ ':' :: rest := by
      rw [← heq, quote, String.toList_ofList]
      exact List.mem_cons_self
    cases hcs : key.toList with
    | nil =>
        rw [isIdentifier, hcs] at hkey
        cases hkey
    | cons c cs =>
        have hc := isIdentifierMark_of_mem (Bool.and_eq_true_iff.mp hkey).1
          (hcs ▸ List.mem_cons_self)
        rw [quote, String.toList_ofList, hcs] at heq
        rw [← (List.cons.inj heq).1] at hc
        exact absurd hc (by decide)
  · have hnil : (quote s).toList ++ [] = (quote key).toList ++ ':' :: rest := by
      rw [List.append_nil]
      exact heq
    exact absurd (quote_unique hnil).2.symm (List.cons_ne_nil _ _)

/-- Neither is the JSON text of anything else. -/
theorem isItem_line_compact {v : Json} (hv : v.lead? ≠ some '"') :
    (Outline.line v.compact).IsItem := by
  intro key rest heq
  obtain ⟨c, cs, hkey, hc⟩ := exists_keyText_eq key
  obtain ⟨c', cs', hcs', hlead⟩ := v.exists_compact_eq
  cases hw : v.isWord with
  | true =>
      have hcolon : ':' ∈ v.compact.toList := by
        rw [heq]
        exact List.mem_append_right _ List.mem_cons_self
      exact absurd (isNumberMark_of_mem_word hw hcolon) (by decide)
  | false =>
      rw [hcs', hkey] at heq
      obtain rfl : c' = c := (List.cons.inj heq).1
      have hnone : v.lead? ≠ none := fun h => by
        rw [(isWord_iff v).mpr h] at hw
        cases hw
      have hsome : v.lead? = some c' := by
        rw [hlead] at hnone ⊢
        split
        · rename_i hmark
          exact absurd (if_pos hmark) hnone
        · rfl
      rcases hc with hc | rfl
      · cases v <;> simp [lead?] at hsome hv <;> rw [← hsome] at hc <;> exact absurd hc (by decide)
      · exact hv hsome

theorem isItem_itemOutline (v : Json) : v.itemOutline.IsItem := by
  cases v with
  | text s =>
      rw [itemOutline]
      exact isItem_line_quote s
  | object members =>
      rw [itemOutline]
      split
      · exact isItem_line_compact (by simp [lead?])
      · trivial
  | number n =>
      rw [itemOutline]
      exact isItem_line_compact (v := number n) (by simp [lead?])
  | _ =>
      rw [itemOutline]
      exact isItem_line_compact (by simp [lead?])

/-- The outlines of members that are not all null are not empty. -/
theorem memberOutlines_ne_nil {members : List (String × Json)} (h : ¬ allNull members = true) :
    memberOutlines members ≠ [] := by
  intro hnil
  rw [memberOutlines_eq, List.map_eq_nil_iff, List.filter_eq_nil_iff] at hnil
  exact h (List.all_eq_true.mpr fun m hm => by simpa using hnil m hm)

/-- The texts of a value cannot be taken for something else. -/
structure LaidOut (v : Json) : Prop where
  atKey : v.isNull = false → v.outline.Lawful
  atItem : v.itemOutline.Lawful

theorem lawful_memberOutlines {members : List (String × Json)} (h : ∀ m ∈ members, m.2.LaidOut) :
    ∀ m ∈ memberOutlines members, m.2.Lawful := by
  intro m hm
  rw [memberOutlines_eq] at hm
  obtain ⟨m', hm', rfl⟩ := List.mem_map.mp hm
  obtain ⟨hmem, hnull⟩ := List.mem_filter.mp hm'
  exact (h m' hmem).atKey (by simpa using hnull)

theorem laidOut_array {items : List Json} (h : ∀ v ∈ items, v.LaidOut) :
    (array items).LaidOut := by
  constructor
  · intro _
    rw [outline]
    split
    · refine lawful_line ?_
      rw [lead?_line (toList_inlineText items)]
      decide
    · rename_i hall
      rw [itemOutlines_eq]
      refine .items ?_ ?_ ?_
      · rintro hnil
        rw [List.map_eq_nil_iff] at hnil
        exact hall (by rw [hnil]; rfl)
      · intro v hv
        obtain ⟨w, _, rfl⟩ := List.mem_map.mp hv
        exact isItem_itemOutline w
      · intro v hv
        obtain ⟨w, hw, rfl⟩ := List.mem_map.mp hv
        exact (h w hw).atItem
  · rw [itemOutline]
    exact lawful_line_compact _

theorem laidOut_object {members : List (String × Json)} (h : ∀ m ∈ members, m.2.LaidOut) :
    (object members).LaidOut := by
  have hfields : ¬ allNull members = true → (Outline.fields (memberOutlines members)).Lawful :=
    fun hall => .fields (memberOutlines_ne_nil hall) (lawful_memberOutlines h)
  constructor
  · intro _
    rw [outline]
    split
    · exact lawful_line (by decide)
    · rename_i hall
      exact hfields hall
  · rw [itemOutline]
    split
    · exact lawful_line_compact _
    · rename_i hall
      exact hfields hall

theorem laidOut_of_isWord {v : Json} (hv : v.isWord = true) : v.LaidOut := by
  constructor
  · intro hnull
    rw [outline_of_isWord hv hnull]
    exact lawful_line_compact v
  · rw [itemOutline_of_isWord hv]
    exact lawful_line_compact v

theorem laidOut_text (s : String) : (text s).LaidOut := by
  constructor
  · intro _
    rw [outline]
    split
    · exact lawful_proseOutline s
    · exact lawful_line_quote s
  · rw [itemOutline]
    exact lawful_line_quote s

theorem laidOut (v : Json) : v.LaidOut :=
  v.induction (fun _ => laidOut_of_isWord) laidOut_text (fun _ => laidOut_array)
    (fun _ => laidOut_object)

end Json

end SimStudio
