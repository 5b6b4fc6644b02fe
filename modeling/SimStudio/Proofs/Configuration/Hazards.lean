import SimStudio.Proofs.Configuration.Flow

/-!
# Forbidden Characters

Some characters make trouble in a configuration: its readers refuse control
characters, and some of them take other characters for the end of a line. Every
text is put in quotes or in a block with that in mind, at a key, in a list and as
a key itself. What is written as JSON is not: JSON escapes the characters below
the space and lets all others stand.

So the forbidden characters in a text are those that stand in a value written as
JSON and are not below the space (`mem_compile_iff`). There are no others, and
none of these gets lost.

Whether such a character stands in a line depends on the text of the line only,
since what the layout adds is clean. The characters of an outline are those of
its texts (`Outline.mem_memberLines_iff`), so what is left are the rows of a
configuration, each of which is clean or an arbitrary value.

## Main definitions

* `isForbidden`: A character that no configuration is to hold.
* `lineChars`, `Outline.chars`, `Json.chars`: The characters of texts.

## Theorems

* `Outline.mem_memberLines_iff`: The layout adds no forbidden character.
* `Json.mem_compact_iff`: Which of them JSON lets stand.
* `mem_compile_iff`: Which of them a configuration holds.
-/

namespace SimStudio

/-- A character that no configuration is to hold: a control character other than
    a line feed and a tab, or a hazard. -/
def isForbidden (c : Char) : Bool :=
  Text.isControl c && c != '\n' && c != '\t' || isHazard c

theorem isClean_eq_false {c : Char} (h : isForbidden c = true) : isClean c = false := by
  cases hcontrol : Text.isControl c <;> cases hhazard : isHazard c <;>
    simp_all [isForbidden, isClean]

theorem ne_newline_of_isForbidden {c : Char} (h : isForbidden c = true) : c ≠ '\n' := by
  rintro rfl
  exact absurd h (by decide)

/-- A block carries a text exactly if there is nothing forbidden in it. -/
theorem isBlockSafe_eq (cs : List Char) : isBlockSafe cs = cs.all fun c => !isForbidden c := by
  refine congrArg cs.all (funext fun c => ?_)
  cases hcontrol : Text.isControl c <;> cases hhazard : isHazard c <;>
    simp [isForbidden, hcontrol, hhazard, bne]

/-- The characters that stand on lines. -/
def lineChars (lines : List Line) : List Char := lines.flatMap fun l => l.text.toList

theorem lineChars_cons (l : Line) (lines : List Line) :
    lineChars (l :: lines) = l.text.toList ++ lineChars lines := List.flatMap_cons

theorem lineChars_append (xs ys : List Line) :
    lineChars (xs ++ ys) = lineChars xs ++ lineChars ys := List.flatMap_append

/-- A mark adds nothing to the text of a line. -/
theorem lineChars_markFirst (lines : List Line) :
    lineChars (markFirst lines) = lineChars lines := by
  cases lines with
  | nil => rfl
  | cons l rest => cases l <;> rfl

/-- The lines of a block are the runs between its line ends. -/
theorem lineChars_blockLines (level : Nat) (runs : List (List Char)) :
    lineChars (runs.map (blockLine level)) = runs.flatten := by
  induction runs with
  | nil => rfl
  | cons run rest ih =>
      rw [List.map_cons, lineChars_cons, ih, List.flatten_cons, blockLine]
      cases run with
      | nil => rfl
      | cons x xs =>
          rw [List.isEmpty_cons, if_neg Bool.false_ne_true, Line.text, String.toList_ofList]

theorem lineChars_blanks (n : Nat) : lineChars (List.replicate n .blank) = [] := by
  induction n with
  | zero => rfl
  | succ n ih => rw [List.replicate_succ, lineChars_cons, ih]; rfl

namespace Outline

mutual

/-- The characters of the texts at a key. -/
def chars : Outline → List Char
  | line text => text.toList
  | prose text => text.toList
  | fields members => memberChars members
  | items each => itemsChars each

/-- The characters of the texts of fields. -/
def memberChars : List (String × Outline) → List Char
  | [] => []
  | (_, v) :: rest => chars v ++ memberChars rest

/-- The characters of the texts of items. -/
def itemsChars : List Outline → List Char
  | [] => []
  | v :: rest => itemChars v ++ itemsChars rest

/-- The characters of the texts of an item. -/
def itemChars : Outline → List Char
  | line text => text.toList
  | fields members => memberChars members
  | prose _ => []
  | items _ => []

end

theorem memberChars_eq (members : List (String × Outline)) :
    memberChars members = members.flatMap fun m => m.2.chars := by
  induction members with
  | nil => rfl
  | cons m rest ih =>
      obtain ⟨key, v⟩ := m
      rw [memberChars, ih, List.flatMap_cons]

theorem itemsChars_eq (each : List Outline) : itemsChars each = each.flatMap itemChars := by
  induction each with
  | nil => rfl
  | cons v rest ih => rw [itemsChars, ih, List.flatMap_cons]

end Outline

section Characters

variable {c : Char} (hc : isForbidden c = true)
include hc

/-- Clean texts hold nothing that is forbidden. -/
theorem not_mem_of_clean {cs : List Char} (h : ∀ x ∈ cs, isClean x = true) : c ∉ cs := by
  intro hmem
  have hclean := h c hmem
  rw [isClean_eq_false hc] at hclean
  cases hclean

theorem not_mem_of_all {cs : List Char} (h : cs.all isClean = true) : c ∉ cs :=
  not_mem_of_clean hc (List.all_eq_true.mp h)

/-- Behind a clean text everything depends on what follows. -/
theorem mem_append_iff_of_all {cs : List Char} (h : cs.all isClean = true) (rest : List Char) :
    c ∈ cs ++ rest ↔ c ∈ rest := by
  rw [List.mem_append, or_iff_right (not_mem_of_all hc h)]

theorem not_mem_quote (s : String) : c ∉ (quote s).toList :=
  not_mem_of_clean hc fun _ => isClean_of_mem_quote

/-- A line holds a forbidden character exactly if its text does. -/
theorem mem_render_iff (l : Line) : c ∈ l.render.toList ↔ c ∈ l.text.toList := by
  have hindented : ∀ (level : Nat) (cs : List Char), c ∈ indented level cs ↔ c ∈ cs := by
    intro level cs
    rw [indented, List.mem_append]
    refine or_iff_right fun hmem => ?_
    rw [List.eq_of_mem_replicate hmem] at hc
    exact absurd hc (by decide)
  have hmark : ∀ cs : List Char, c ∈ '-' :: ' ' :: cs ↔ c ∈ cs :=
    mem_append_iff_of_all hc (by decide : ['-', ' '].all isClean = true)
  rw [Line.toList_render]
  cases l with
  | entry level item text =>
      cases item with
      | true => exact (hindented _ _).trans (hmark _)
      | false => exact hindented _ _
  | content level text => exact hindented _ _
  | blank => exact Iff.rfl

theorem mem_renderLines_iff (lines : List Line) :
    c ∈ (renderLines lines).toList ↔ c ∈ lineChars lines := by
  have hend : ∀ cs : List Char, c ∈ cs ++ ['\n'] ↔ c ∈ cs := fun cs => by
    rw [List.mem_append, List.mem_singleton]
    exact or_iff_left (ne_newline_of_isForbidden hc)
  rw [toList_renderLines, List.flatMap_map, lineChars, List.mem_flatMap, List.mem_flatMap]
  simp only [hend, mem_render_iff hc]

/-- A block holds what its text holds. -/
theorem mem_proseLines_iff (level : Nat) (text : String) :
    c ∈ lineChars (proseLines level text) ↔ c ∈ text.toList := by
  -- Only line ends get lost on the way into a block, and they are allowed.
  have hne := ne_newline_of_isForbidden hc
  have hdrop : ∀ cs : List Char, c ∈ cs.dropWhile (· == '\n') ↔ c ∈ cs := by
    intro cs
    induction cs with
    | nil => exact Iff.rfl
    | cons x xs ih =>
        rw [List.dropWhile_cons]
        split
        · rename_i hx
          rw [ih, List.mem_cons]
          exact (or_iff_right fun h => hne (h.trans (beq_iff_eq.mp hx))).symm
        · exact Iff.rfl
  have hbody : c ∈ proseBody text.toList ↔ c ∈ text.toList := by
    rw [proseBody, List.mem_reverse, hdrop, List.mem_reverse]
  rw [proseLines, lineChars_append, lineChars_blockLines, lineChars_blanks, List.append_nil,
    ← hbody, List.mem_flatten]
  conv_rhs => rw [← Text.join_split '\n' (proseBody text.toList), Text.join]
  constructor
  · rintro ⟨run, hrun, hmem⟩
    exact Text.mem_intercalate_of_mem hrun hmem
  · intro hmem
    exact (Text.mem_intercalate hmem).resolve_left fun h => hne (List.mem_singleton.mp h)

/-- The header of a block is clean. -/
theorem not_mem_proseHeader (text : String) : c ∉ (proseHeader text).toList := by
  have hdepth : ∀ lines, c ∉ (depthMark lines).toList := by
    intro lines
    unfold depthMark
    split
    · exact not_mem_of_all hc (by decide)
    · exact not_mem_of_all hc (by decide)
  have hchomp : ∀ n, c ∉ (chomping n).toList := by
    intro n
    unfold chomping
    split
    · exact not_mem_of_all hc (by decide)
    · exact not_mem_of_all hc (by decide)
    · exact not_mem_of_all hc (by decide)
  rw [proseHeader, String.toList_append, String.toList_append, List.append_assoc,
    mem_append_iff_of_all hc (by decide), List.mem_append]
  exact not_or.mpr ⟨hdepth _, hchomp _⟩

namespace Outline

/-- The line of a key holds what stands behind the colon. -/
theorem mem_keyLine_iff (level : Nat) (key : String) (v : Outline) :
    c ∈ (keyLine level key v).text.toList ↔ c ∈ v.suffix.toList := by
  rw [keyLine, Line.text, String.toList_append, String.toList_append, List.append_assoc,
    List.mem_append, or_iff_right (not_mem_of_clean hc fun _ => isClean_of_mem_keyText)]
  exact mem_append_iff_of_all hc (by decide) _

end Outline

end Characters

namespace Outline

mutual

theorem mem_keyLines_iff {c : Char} (hc : isForbidden c = true) (level : Nat) (key : String) :
    ∀ v : Outline, c ∈ lineChars (keyLine level key v :: nestedLines (level + 1) v) ↔ c ∈ v.chars
  | line text => by
      rw [lineChars_cons, List.mem_append, mem_keyLine_iff hc, suffix, String.toList_append,
        mem_append_iff_of_all hc (by decide)]
      exact or_iff_left List.not_mem_nil
  | prose text => by
      have hsuffix : c ∉ (prose text).suffix.toList := by
        rw [suffix, String.toList_append, mem_append_iff_of_all hc (by decide)]
        exact not_mem_proseHeader hc text
      rw [lineChars_cons, List.mem_append, mem_keyLine_iff hc, or_iff_right hsuffix, nestedLines,
        mem_proseLines_iff hc, chars]
  | fields members => by
      rw [lineChars_cons, List.mem_append, mem_keyLine_iff hc, nestedLines,
        mem_memberLines_iff hc (level + 1) members]
      exact or_iff_right List.not_mem_nil
  | items each => by
      rw [lineChars_cons, List.mem_append, mem_keyLine_iff hc, nestedLines,
        mem_itemLines_iff hc (level + 1) each]
      exact or_iff_right List.not_mem_nil

/-- The layout of fields adds no forbidden character to their texts. -/
theorem mem_memberLines_iff {c : Char} (hc : isForbidden c = true) (level : Nat) :
    ∀ members : List (String × Outline),
      c ∈ lineChars (memberLines level members) ↔ c ∈ memberChars members
  | [] => Iff.rfl
  | (key, v) :: rest => by
      rw [memberLines, ← List.cons_append, lineChars_append, List.mem_append, memberChars,
        List.mem_append, mem_keyLines_iff hc level key v, mem_memberLines_iff hc level rest]

theorem mem_itemLines_iff {c : Char} (hc : isForbidden c = true) (level : Nat) :
    ∀ each : List Outline, c ∈ lineChars (itemLines level each) ↔ c ∈ itemsChars each
  | [] => Iff.rfl
  | v :: rest => by
      rw [itemLines, lineChars_append, List.mem_append, itemsChars, List.mem_append,
        mem_itemBlock_iff hc level v, mem_itemLines_iff hc level rest]

theorem mem_itemBlock_iff {c : Char} (hc : isForbidden c = true) (level : Nat) :
    ∀ v : Outline, c ∈ lineChars (itemBlock level v) ↔ c ∈ v.itemChars
  | line text => by
      rw [itemBlock, lineChars_cons, List.mem_append, Line.text, String.toList_append,
        mem_append_iff_of_all hc (by decide)]
      exact or_iff_left List.not_mem_nil
  | fields members => by
      rw [itemBlock, lineChars_markFirst, itemChars, mem_memberLines_iff hc (level + 1) members]
  | prose _ => Iff.rfl
  | items _ => Iff.rfl

end

end Outline

namespace Json

mutual

/-- The characters of the texts and keys in a value. -/
def chars : Json → List Char
  | text s => s.toList
  | array items => itemsChars items
  | object members => memberChars members
  | null => []
  | bool _ => []
  | number _ => []

/-- The characters of the texts and keys in items. -/
def itemsChars : List Json → List Char
  | [] => []
  | v :: rest => chars v ++ itemsChars rest

/-- The characters of the texts and keys in members. -/
def memberChars : List (String × Json) → List Char
  | [] => []
  | (key, v) :: rest => key.toList ++ chars v ++ memberChars rest

end

theorem itemsChars_eq (items : List Json) : itemsChars items = items.flatMap chars := by
  induction items with
  | nil => rfl
  | cons v rest ih => rw [itemsChars, ih, List.flatMap_cons]

theorem memberChars_eq (members : List (String × Json)) :
    memberChars members = members.flatMap fun m => m.1.toList ++ m.2.chars := by
  induction members with
  | nil => rfl
  | cons m rest ih =>
      obtain ⟨key, v⟩ := m
      rw [memberChars, ih, List.flatMap_cons]

end Json

section Values

variable {c : Char} (hc : isForbidden c = true)
include hc

/-- A list in brackets holds a forbidden character exactly if one of its texts
    does. -/
theorem mem_enclosed_iff {opening separator closing : String}
    (ho : opening.toList.all isClean = true) (hs : separator.toList.all isClean = true)
    (hcl : closing.toList.all isClean = true) (texts : List String) :
    c ∈ (opening ++ separator.intercalate texts ++ closing).toList ↔ ∃ t ∈ texts, c ∈ t.toList := by
  rw [String.toList_append, String.toList_append, List.append_assoc, mem_append_iff_of_all hc ho,
    List.mem_append, or_iff_left (not_mem_of_all hc hcl), String.toList_intercalate]
  constructor
  · intro hmem
    obtain ⟨t, ht, hmem⟩ := (Text.mem_intercalate hmem).resolve_left (not_mem_of_all hc hs)
    obtain ⟨u, hu, rfl⟩ := List.mem_map.mp ht
    exact ⟨u, hu, hmem⟩
  · rintro ⟨t, ht, hmem⟩
    exact Text.mem_intercalate_of_mem (List.mem_map_of_mem ht) hmem

namespace Json

/-- JSON escapes what is below the space and lets the rest stand. -/
theorem mem_escaped_iff (x : Char) : c ∈ escaped x ↔ 0x7F ≤ c.toNat ∧ c = x := by
  -- A character with a letter of its own is below the delete character.
  have hletter : ∀ {cs : List Char} {x : Char}, cs.all isClean = true → x.toNat < 0x7F →
      (c ∈ cs ↔ 0x7F ≤ c.toNat ∧ c = x) := fun hcs hx =>
    iff_of_false (not_mem_of_all hc hcs) (by rintro ⟨hle, rfl⟩; omega)
  unfold escaped
  split
  · exact hletter (by decide) (by decide)
  · exact hletter (by decide) (by decide)
  · exact hletter (by decide) (by decide)
  · exact hletter (by decide) (by decide)
  · exact hletter (by decide) (by decide)
  · exact hletter (by decide) (by decide)
  · exact hletter (by decide) (by decide)
  · split
    · rename_i hlow
      refine hletter (List.all_eq_true.mpr fun y hy => ?_) (by omega)
      rcases List.mem_cons.mp hy with rfl | hy
      · rfl
      · rcases List.mem_cons.mp hy with rfl | hy
        · rfl
        · exact isClean_of_isNumberMark (isNumberMark_of_mem_padded (by omega) (by omega) hy)
    · rename_i hlow
      rw [List.mem_singleton]
      refine ⟨fun heq => ⟨?_, heq⟩, fun h => h.2⟩
      by_contra hle
      have hclean := isClean_of_toNat (c := c) (by rw [heq]; omega) (by omega)
      rw [isClean_eq_false hc] at hclean
      cases hclean

theorem mem_quoted_iff (s : String) : c ∈ (quoted s).toList ↔ 0x7F ≤ c.toNat ∧ c ∈ s.toList := by
  have hopening : c ∈ '"' :: (s.toList.flatMap escaped ++ ['"']) ↔
      c ∈ s.toList.flatMap escaped ++ ['"'] :=
    mem_append_iff_of_all hc (by decide : ['"'].all isClean = true) _
  rw [quoted, String.toList_ofList, hopening, List.mem_append,
    or_iff_left (not_mem_of_all hc (by decide)), List.mem_flatMap]
  simp only [mem_escaped_iff hc]
  constructor
  · rintro ⟨x, hx, hle, rfl⟩
    exact ⟨hle, hx⟩
  · rintro ⟨hle, hx⟩
    exact ⟨c, hx, hle, rfl⟩

/-- A JSON text holds the forbidden characters of its texts and keys, but for
    those below the space. -/
theorem mem_compact_iff (v : Json) : c ∈ v.compact.toList ↔ 0x7F ≤ c.toNat ∧ c ∈ v.chars := by
  -- By induction on the value: words, texts, lists and objects.
  refine v.induction (P := fun v => c ∈ v.compact.toList ↔ 0x7F ≤ c.toNat ∧ c ∈ v.chars)
    (fun v hv => ?_) (fun s => ?_) (fun items ih => ?_) (fun members ih => ?_)
  · have hnil : v.chars = [] := by
      cases v <;> first | rfl | cases hv
    rw [hnil]
    refine iff_of_false (not_mem_of_clean hc fun x hx => ?_) fun h => absurd h.2 List.not_mem_nil
    exact isClean_of_isNumberMark (isNumberMark_of_mem_word hv hx)
  · exact mem_quoted_iff hc s
  · rw [compact, mem_enclosed_iff hc (by decide) (by decide) (by decide), compactItems_eq, chars,
      itemsChars_eq, List.mem_flatMap]
    constructor
    · rintro ⟨t, ht, hmem⟩
      obtain ⟨v, hv, rfl⟩ := List.mem_map.mp ht
      obtain ⟨hle, hmem⟩ := (ih v hv).mp hmem
      exact ⟨hle, v, hv, hmem⟩
    · rintro ⟨hle, v, hv, hmem⟩
      exact ⟨_, List.mem_map_of_mem hv, (ih v hv).mpr ⟨hle, hmem⟩⟩
  · have htext : ∀ m ∈ members, c ∈ (quoted m.1 ++ ":" ++ m.2.compact).toList ↔
        0x7F ≤ c.toNat ∧ c ∈ m.1.toList ++ m.2.chars := by
      intro m hm
      rw [String.toList_append, String.toList_append, List.append_assoc, List.mem_append,
        mem_quoted_iff hc, mem_append_iff_of_all hc (by decide), ih m hm, List.mem_append,
        and_or_left]
    rw [compact, mem_enclosed_iff hc (by decide) (by decide) (by decide), compactMembers_eq, chars,
      memberChars_eq, List.mem_flatMap]
    constructor
    · rintro ⟨t, ht, hmem⟩
      obtain ⟨m, hm, rfl⟩ := List.mem_map.mp ht
      obtain ⟨hle, hmem⟩ := (htext m hm).mp hmem
      exact ⟨hle, m, hm, hmem⟩
    · rintro ⟨hle, m, hm, hmem⟩
      exact ⟨_, List.mem_map_of_mem hm, (htext m hm).mpr ⟨hle, hmem⟩⟩

/-- The outlines of a value hold the forbidden characters of what is written as
    JSON, and no others. -/
structure Shown (c : Char) (v : Json) : Prop where
  atKey : c ∈ v.outline.chars ↔ ∃ w ∈ v.flowValues, c ∈ w.compact.toList
  atItem : c ∈ v.itemOutline.itemChars ↔ ∃ w ∈ v.flowItem, c ∈ w.compact.toList

omit hc in
theorem mem_memberOutlines_iff {members : List (String × Json)} (h : ∀ m ∈ members, Shown c m.2) :
    c ∈ Outline.memberChars (memberOutlines members) ↔
      ∃ w ∈ flowMembers members, c ∈ w.compact.toList := by
  rw [memberOutlines_eq, Outline.memberChars_eq, flowMembers_eq, List.flatMap_map, List.mem_flatMap]
  constructor
  · rintro ⟨m, hm, hmem⟩
    have hm := (List.mem_filter.mp hm).1
    obtain ⟨w, hw, hmem⟩ := (h m hm).atKey.mp hmem
    exact ⟨w, List.mem_flatMap.mpr ⟨m, hm, hw⟩, hmem⟩
  · rintro ⟨w, hw, hmem⟩
    obtain ⟨m, hm, hw⟩ := List.mem_flatMap.mp hw
    cases hnull : m.2.isNull with
    | true =>
        rw [flowValues_of_isNull hnull] at hw
        exact absurd hw List.not_mem_nil
    | false =>
        exact ⟨m, List.mem_filter.mpr ⟨hm, by rw [hnull]; rfl⟩, (h m hm).atKey.mpr ⟨w, hw, hmem⟩⟩

omit hc in
theorem mem_itemOutlines_iff {items : List Json} (h : ∀ v ∈ items, Shown c v) :
    c ∈ Outline.itemsChars (itemOutlines items) ↔ ∃ w ∈ flowItems items, c ∈ w.compact.toList := by
  rw [itemOutlines_eq, Outline.itemsChars_eq, flowItems_eq, List.flatMap_map, List.mem_flatMap]
  constructor
  · rintro ⟨v, hv, hmem⟩
    obtain ⟨w, hw, hmem⟩ := (h v hv).atItem.mp hmem
    exact ⟨w, List.mem_flatMap.mpr ⟨v, hv, hw⟩, hmem⟩
  · rintro ⟨w, hw, hmem⟩
    obtain ⟨v, hv, hw⟩ := List.mem_flatMap.mp hw
    exact ⟨v, hv, (h v hv).atItem.mpr ⟨w, hw, hmem⟩⟩

/-- A prompt is written as a block only if there is nothing forbidden in it. -/
theorem not_mem_proseOutline (s : String) : c ∉ (proseOutline s).chars := by
  rw [proseOutline]
  split
  · rename_i hprose
    rw [isProse, Bool.not_eq_true', Bool.or_eq_false_iff, Bool.not_eq_false',
      isBlockSafe_eq] at hprose
    intro hmem
    have hsafe := List.all_eq_true.mp hprose.2 c hmem
    rw [hc] at hsafe
    cases hsafe
  · exact not_mem_quote hc s

theorem not_mem_inlineText {items : List Json} (h : items.all isInline = true) :
    c ∉ (inlineText items).toList := by
  rw [inlineText, mem_enclosed_iff hc (by decide) (by decide) (by decide)]
  rintro ⟨t, ht, hmem⟩
  obtain ⟨v, hv, rfl⟩ := List.mem_map.mp ht
  have hinline := List.all_eq_true.mp h v hv
  cases v with
  | text s => exact not_mem_quote hc s hmem
  | null => cases hinline
  | array items => cases hinline
  | object members => cases hinline
  | _ => exact absurd ((mem_compact_iff hc _).mp hmem).2 List.not_mem_nil

theorem shown_of_isWord {v : Json} (hv : v.isWord = true) : Shown c v := by
  have hclean : c ∉ v.compact.toList := not_mem_of_clean hc fun x hx =>
    isClean_of_isNumberMark (isNumberMark_of_mem_word hv hx)
  have hflow : v.flowValues = [] ∧ v.flowItem = [] := by
    cases v <;> first | exact ⟨rfl, rfl⟩ | cases hv
  constructor
  · rw [hflow.1]
    refine iff_of_false ?_ (by rintro ⟨w, hw, -⟩; exact absurd hw List.not_mem_nil)
    cases hnull : v.isNull with
    | true => rw [eq_null_of_isNull hnull]; exact List.not_mem_nil
    | false => rwa [outline_of_isWord hv hnull]
  · rw [hflow.2, itemOutline_of_isWord hv]
    exact iff_of_false hclean (by rintro ⟨w, hw, -⟩; exact absurd hw List.not_mem_nil)

theorem shown_text (s : String) : Shown c (text s) := by
  have hflow : ¬∃ w ∈ ([] : List Json), c ∈ w.compact.toList := fun ⟨_, hw, _⟩ =>
    absurd hw List.not_mem_nil
  constructor
  · refine iff_of_false ?_ hflow
    rw [outline]
    split
    · exact not_mem_proseOutline hc s
    · exact not_mem_quote hc s
  · refine iff_of_false ?_ hflow
    rw [itemOutline]
    exact not_mem_quote hc s

theorem shown_array {items : List Json} (h : ∀ v ∈ items, Shown c v) : Shown c (array items) := by
  constructor
  · rw [outline, flowValues]
    split
    · -- On one line the texts stand in quotes.
      rename_i hinline
      exact iff_of_false (not_mem_inlineText hc hinline) (by simp)
    · exact mem_itemOutlines_iff h
  · rw [itemOutline, flowItem]
    simp [Outline.itemChars]

theorem shown_object {members : List (String × Json)} (h : ∀ m ∈ members, Shown c m.2) :
    Shown c (object members) := by
  constructor
  · rw [outline, flowValues]
    split
    · rename_i hnull
      rw [flowMembers_of_allNull hnull]
      exact iff_of_false (not_mem_of_all hc (by decide)) (by simp)
    · exact mem_memberOutlines_iff h
  · rw [itemOutline, flowItem]
    split
    · simp [Outline.itemChars]
    · exact mem_memberOutlines_iff h

theorem shown (v : Json) : Shown c v :=
  v.induction (fun _ => shown_of_isWord hc) (shown_text hc) (fun _ => shown_array hc)
    (fun _ => shown_object hc)

end Json

end Values

/-- The characters of the texts of a row. -/
def rowChars : Option Outline → List Char
  | none => []
  | some v => v.chars

theorem memberChars_present (rows : List (String × Option Outline)) :
    Outline.memberChars (present rows) = rows.flatMap fun row => rowChars row.2 := by
  induction rows with
  | nil => rfl
  | cons row rest ih =>
      obtain ⟨key, o⟩ := row
      rw [List.flatMap_cons, ← ih]
      cases o <;> rfl

theorem rowChars_fields? (members : List (String × Outline)) :
    rowChars (fields? members) = Outline.memberChars members := by
  cases members <;> rfl

theorem rowChars_items? {α : Type} (rows : α → List (String × Option Outline)) (xs : List α) :
    rowChars (items? (xs.map fun x => .fields (present (rows x)))) =
      xs.flatMap fun x => Outline.memberChars (present (rows x)) := by
  have hitems : rowChars (items? (xs.map fun x => .fields (present (rows x)))) =
      Outline.itemsChars (xs.map fun x => .fields (present (rows x))) := by
    cases xs <;> rfl
  rw [hitems, Outline.itemsChars_eq, List.flatMap_map]
  rfl

section Rows

variable {c : Char} (hc : isForbidden c = true)
include hc

theorem not_mem_quotedRow (s : String) : c ∉ rowChars (some (.line (quote s))) :=
  not_mem_quote hc s

theorem not_mem_markedRow {text : String} (h : ∀ x ∈ text.toList, isNumberMark x = true) :
    c ∉ rowChars (some (.line text)) :=
  not_mem_of_clean hc fun x hx => isClean_of_isNumberMark (h x hx)

theorem not_mem_intRow (i : Int) : c ∉ rowChars (some (.line (toString i))) :=
  not_mem_markedRow hc fun _ => isNumberMark_of_mem_intText

theorem not_mem_natRow (n : Nat) : c ∉ rowChars (some (.line (toString n))) := not_mem_intRow hc n

theorem not_mem_wordsRow (ns : List UInt32) : c ∉ rowChars (some (.line (wordsText ns))) := by
  rw [rowChars, Outline.chars, wordsText, mem_enclosed_iff hc (by decide) (by decide) (by decide)]
  rintro ⟨t, ht, hmem⟩
  obtain ⟨n, _, rfl⟩ := List.mem_map.mp ht
  exact not_mem_natRow hc n.toNat hmem

omit hc in
theorem not_mem_ite_row {b : Bool} {v : Outline} (h : c ∉ rowChars (some v)) :
    c ∉ rowChars (if b then none else some v) := by
  cases b with
  | true => exact List.not_mem_nil
  | false => exact h

theorem not_mem_partialRows (x : PromptPartial) :
    c ∉ Outline.memberChars (present (partialRows x)) := by
  have hname := not_mem_quotedRow hc x.name
  have hcontent : c ∉ rowChars (some (Json.proseOutline x.content)) :=
    Json.not_mem_proseOutline hc x.content
  rw [memberChars_present, partialRows]
  simp only [List.flatMap_cons, List.flatMap_nil, List.mem_append, hname, hcontent,
    List.not_mem_nil, or_false, not_false_eq_true]

/-- A role holds what its parameters hold. -/
theorem mem_roleRows_iff (r : Role) : c ∈ Outline.memberChars (present (roleRows r)) ↔
    ∃ w ∈ r.flowValues, c ∈ w.compact.toList := by
  have hparameters : c ∈ Outline.memberChars (Json.memberOutlines r.parameters.entries) ↔
      ∃ w ∈ r.flowValues, c ∈ w.compact.toList :=
    Json.mem_memberOutlines_iff fun m _ => m.2.shown hc
  have hid := not_mem_natRow hc r.id.toNat
  have hname := not_mem_quotedRow hc r.name
  have hmodel := not_mem_quotedRow hc r.model
  have hcount := not_mem_natRow hc r.count.toNat
  have hphases := not_mem_ite_row (b := (r.phases.getD []).isEmpty)
    (not_mem_wordsRow hc (r.phases.getD []))
  have hprompts : c ∉ Outline.memberChars (promptOutlines r.prompts.entries) := by
    rw [promptOutlines, Outline.memberChars_eq, List.flatMap_map, List.mem_flatMap]
    rintro ⟨m, _, hmem⟩
    exact Json.not_mem_proseOutline hc m.2 hmem
  rw [memberChars_present, roleRows, ← hparameters]
  simp only [List.flatMap_cons, List.flatMap_nil, List.mem_append, rowChars_fields?, hid, hname,
    hmodel, hcount, hphases, hprompts, List.not_mem_nil, false_or, or_false]

theorem not_mem_agentRows (id : UInt32) : c ∉ Outline.memberChars (present (agentRows id)) := by
  have hid := not_mem_natRow hc id.toNat
  rw [memberChars_present, agentRows]
  simp only [List.flatMap_cons, List.flatMap_nil, List.mem_append, hid, List.not_mem_nil, or_false,
    not_false_eq_true]

/-- A field of the state holds what its default holds. -/
theorem mem_stateFieldRows_iff (f : StateField) :
    c ∈ Outline.memberChars (present (stateFieldRows f)) ↔
      ∃ w ∈ f.flowValues, c ∈ w.compact.toList := by
  have hname := not_mem_quotedRow hc f.name
  have htype := not_mem_quotedRow hc f.type
  have hdefault : c ∈ rowChars (if (f.default.getD .null).isNull then none
      else some (f.default.getD .null).outline) ↔ ∃ w ∈ f.flowValues, c ∈ w.compact.toList := by
    rw [StateField.flowValues]
    cases hnull : (f.default.getD .null).isNull with
    | true =>
        rw [Json.flowValues_of_isNull hnull]
        exact iff_of_false List.not_mem_nil (by simp)
    | false => exact ((f.default.getD .null).shown hc).atKey
  rw [memberChars_present, stateFieldRows]
  simp only [List.flatMap_cons, List.flatMap_nil, List.mem_append, hname, htype, hdefault,
    List.not_mem_nil, false_or, or_false]

/-- The state holds what its fields hold. -/
theorem mem_stateRows_iff (s : StateSchema) : c ∈ Outline.memberChars (present (stateRows s)) ↔
    ∃ n ∈ StateNamespace.all, ∃ f ∈ s.fields n, ∃ w ∈ f.flowValues, c ∈ w.compact.toList := by
  rw [memberChars_present, stateRows, List.flatMap_map, List.mem_flatMap]
  simp only [rowChars_items?, List.mem_flatMap, mem_stateFieldRows_iff hc]

theorem not_mem_setting (v : Setting) : c ∉ v.outline.chars := by
  cases v with
  | text s => exact not_mem_quotedRow hc s
  | int i => exact not_mem_intRow hc i
  | float x => exact not_mem_markedRow hc fun _ => FloatLayout.isNumberMark_of_mem_text
  | words ns => exact not_mem_wordsRow hc ns

theorem not_mem_runnerRows (m : Manager) (gameId : Option Int64) (server : Server) :
    c ∉ Outline.memberChars (present (runnerRows m gameId server)) := by
  rw [← outline_runnerSettings, Outline.memberChars_eq, List.flatMap_map, List.mem_flatMap]
  rintro ⟨x, _, hmem⟩
  exact not_mem_setting hc x.2 hmem

/-- A project holds what its parameters and defaults hold. -/
theorem mem_rows_iff (p : Project) (server : Server) (agents : List UInt32) :
    c ∈ Outline.memberChars (present (p.rows server agents)) ↔
      ∃ w ∈ p.flowValues, c ∈ w.compact.toList := by
  -- The rows without parameters and defaults are clean, each for its own reason.
  have hname := not_mem_quotedRow hc p.name
  have hdescription := not_mem_ite_row (b := (p.description.getD "").isEmpty)
    (not_mem_quotedRow hc (p.description.getD ""))
  have hgame : c ∉ rowChars (p.gameId.map fun i => .line (toString i.toInt)) := by
    cases p.gameId with
    | none => exact List.not_mem_nil
    | some i => exact not_mem_intRow hc i.toInt
  have hmanager : c ∉ rowChars (some (.fields [("type", .line (quote p.manager.typeName))])) := by
    rw [rowChars, Outline.chars, Outline.memberChars_eq, List.flatMap_singleton]
    exact not_mem_quotedRow hc p.manager.typeName
  have hrunner : c ∉ rowChars (some (.fields (present (runnerRows p.manager p.gameId server)))) :=
    not_mem_runnerRows hc p.manager p.gameId server
  have hpartials :
      c ∉ p.partials.flatMap fun x => Outline.memberChars (present (partialRows x)) := by
    rw [List.mem_flatMap]
    rintro ⟨x, _, hmem⟩
    exact not_mem_partialRows hc x hmem
  have hagents : c ∉ agents.flatMap fun id => Outline.memberChars (present (agentRows id)) := by
    rw [List.mem_flatMap]
    rintro ⟨id, _, hmem⟩
    exact not_mem_agentRows hc id hmem
  rw [memberChars_present, Project.rows, p.exists_mem_flowValues]
  simp only [List.flatMap_cons, List.flatMap_nil, List.mem_append, hname, hdescription, hgame,
    hmanager, hrunner, rowChars_items?, rowChars_fields?, hpartials, hagents, List.not_mem_nil,
    false_or, or_false, List.mem_flatMap, mem_roleRows_iff hc, mem_stateRows_iff hc]

end Rows

/-- A configuration holds a forbidden character exactly if it stands in a value
    that is written as JSON, where JSON lets it stand. Everywhere else such a
    character is escaped. -/
theorem mem_compile_iff (p : Project) (server : Server) (text : String)
    (h : p.compile server = .ok text) (c : Char) (hc : isForbidden c = true) :
    c ∈ text.toList ↔ 0x7F ≤ c.toNat ∧ ∃ v ∈ p.flowValues, c ∈ v.chars := by
  obtain ⟨agents, -, rfl⟩ := Project.compile_eq_ok_iff.mp h
  -- From the text to its lines, to the outlines, to the values written as JSON.
  rw [mem_renderLines_iff hc, Project.laidOut_eq, Outline.mem_memberLines_iff hc, mem_rows_iff hc]
  simp only [Json.mem_compact_iff hc]
  constructor
  · rintro ⟨v, hv, hle, hmem⟩
    exact ⟨hle, v, hv, hmem⟩
  · rintro ⟨hle, v, hv, hmem⟩
    exact ⟨v, hv, hle, hmem⟩

/-- A project with a line separator at many places, and a control character. -/
def Project.separated : Project where
  name := "a\u2028"
  roles := [{
    id := 1
    name := "r\u2028"
    parameters := .ofList [("k\u2028", .array [.array [.text "\u2028\x01"], .text "\u2028"])]
    prompts := .ofList [("user", "x\u2028\ny")] }]

/-- A line separator in a list in a list gets through, a control character does
    not. -/
theorem mem_compile_separated :
    Project.separated.validate = .ok Project.separated ∧
      ∃ text, Project.separated.compile {} = .ok text ∧ '\u2028' ∈ text.toList ∧
        '\x01' ∉ text.toList := by
  have hseparator := (mem_compile_iff Project.separated {} _ rfl '\u2028' (by decide)).mpr
    ⟨by decide, .array [.text "\u2028\x01"], List.mem_cons_self, by decide⟩
  have hcontrol := mt (mem_compile_iff Project.separated {} _ rfl '\x01' (by decide)).mp
    fun h => absurd h.1 (by decide)
  exact ⟨rfl, _, rfl, hseparator, hcontrol⟩

end SimStudio
