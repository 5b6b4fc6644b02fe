import SimStudio.Configuration.Field
import SimStudio.Proofs.Number.Characters
import SimStudio.Proofs.Text.Runs

/-!
# Where Lines Begin

Every line of a configuration is one line, and none begins further to the left
than the field it belongs to. Both are settled by `Line.Fits`, which is proved
once for each way of writing a field and, by recursion on the value, for the
lines of arbitrary values. An item mark moves a line one level to the left;
since the mark is only ever put on lines that fit one level deeper,
`fits_markFirst` gives the level back.

That no line holds a line end comes down to characters. Texts in quotes are
made of clean characters, because whatever is a control character is escaped.
Keys and numbers consist of clean characters anyway, and the lines of a block
come from splitting at the line ends.

## Main definitions

* `isClean`: Neither a control character nor a hazard.
* `Line.text`: What stands on a line behind its indentation and its mark.
* `indented`: A text in the column of a level.
* `Line.Below`: A line begins at a level or deeper.
* `Line.Fits`: A line that is one line and begins at a level or deeper.

## Theorems

* `isClean_of_mem_quote`: A text in quotes has clean characters only.
* `newline_not_mem_keyText`, `newline_not_mem_compact`: Keys and JSON texts stay
  on their line.
* `fits_proseField`, `fits_valueField`: Fields fit the level they are written at.
* `fits_markFirst`: A mark moves a block one level to the left.
* `toList_renderLines`: A rendered text is its lines, each with its end.
-/

namespace SimStudio

/-- Neither a control character nor a hazard. -/
def isClean (c : Char) : Bool := !Text.isControl c && !isHazard c

theorem ne_newline_of_isClean {c : Char} (h : isClean c = true) : c ≠ '\n' := by
  rintro rfl
  exact absurd h (by decide)

theorem isClean_of_toNat {c : Char} (h : 0x20 ≤ c.toNat) (h' : c.toNat ≤ 0x7E) :
    isClean c = true := by
  have hhazard : isHazard c = false := by
    simp only [isHazard, Bool.or_eq_false_iff, beq_eq_false_iff_ne]
    refine ⟨⟨?_, ?_⟩, ?_⟩ <;> (rintro rfl; revert h'; decide)
  simp only [isClean, hhazard, Text.isControl]
  have h1 : decide (c.toNat ≤ 0x1F) = false := decide_eq_false (by omega)
  have h2 : decide (0x7F ≤ c.toNat) = false := decide_eq_false (by omega)
  simp only [h1, h2, Bool.false_and, Bool.or_false, Bool.not_false, Bool.and_true]

theorem isClean_of_isAlphanum {c : Char} (h : c.isAlphanum = true) : isClean c = true := by
  delta Char.isAlphanum Char.isAlpha Char.isUpper Char.isLower Char.isDigit at h
  simp only [Bool.or_eq_true, Bool.and_eq_true, decide_eq_true_eq, ge_iff_le,
    UInt32.le_iff_toNat_le] at h
  have hval : c.val.toNat = c.toNat := rfl
  refine isClean_of_toNat ?_ ?_ <;> rw [← hval] <;>
    rcases h with (⟨h, h'⟩ | ⟨h, h'⟩) | ⟨h, h'⟩ <;> simp at h h' <;> omega

theorem isClean_of_isNumberMark {c : Char} (h : isNumberMark c = true) : isClean c = true := by
  simp only [isNumberMark, Bool.or_eq_true, beq_iff_eq] at h
  rcases h with ((h | rfl) | rfl) | rfl
  · exact isClean_of_isAlphanum h
  · rfl
  · rfl
  · rfl

theorem isClean_of_mem_quotedChar {c x : Char} (h : x ∈ quotedChar c) : isClean x = true := by
  have hpair : ∀ {ds : List Char}, ds.all isClean = true → x ∈ ds → isClean x = true :=
    fun hds hx => List.all_eq_true.mp hds x hx
  unfold quotedChar at h
  split at h
  · exact hpair (by decide) h
  · exact hpair (by decide) h
  · exact hpair (by decide) h
  · exact hpair (by decide) h
  · exact hpair (by decide) h
  · split at h
    · rcases List.mem_cons.mp h with rfl | h
      · rfl
      · rcases List.mem_cons.mp h with rfl | h
        · rfl
        · exact isClean_of_isNumberMark
            (isNumberMark_of_mem_padded (by omega) (by omega) h)
    · rename_i hsafe
      rw [List.mem_singleton.mp h]
      simpa [isClean] using hsafe

/-- A text in quotes has clean characters only. -/
theorem isClean_of_mem_quote {s : String} {c : Char} (h : c ∈ (quote s).toList) :
    isClean c = true := by
  rw [quote, String.toList_ofList] at h
  rcases List.mem_cons.mp h with rfl | h
  · rfl
  · rcases List.mem_append.mp h with h | h
    · obtain ⟨x, _, hx⟩ := List.mem_flatMap.mp h
      exact isClean_of_mem_quotedChar hx
    · rw [List.mem_singleton.mp h]
      rfl

theorem isClean_of_mem_identifier {s : String} (hs : isIdentifier s = true) {c : Char}
    (h : c ∈ s.toList) : isClean c = true := by
  have hstart : ∀ x, isIdentifierStart x = true → isClean x = true := by
    intro x hx
    simp only [isIdentifierStart, Bool.or_eq_true, beq_iff_eq] at hx
    rcases hx with hx | rfl
    · exact isClean_of_isAlphanum (by simp only [Char.isAlphanum, hx, Bool.true_or])
    · rfl
  rw [isIdentifier] at hs
  cases hcs : s.toList with
  | nil =>
      rw [hcs] at h
      exact absurd h List.not_mem_nil
  | cons x xs =>
      rw [hcs] at hs h
      simp only [Bool.and_eq_true, List.all_eq_true, Bool.or_eq_true] at hs
      rcases List.mem_cons.mp h with rfl | h
      · exact hstart _ hs.1
      · rcases hs.2 c h with hc | hc
        · exact hstart c hc
        · exact isClean_of_isAlphanum (by simp only [Char.isAlphanum, hc, Bool.or_true])

theorem isClean_of_mem_keyText {key : String} {c : Char} (h : c ∈ (keyText key).toList) :
    isClean c = true := by
  rw [keyText] at h
  split at h
  · rename_i hkey
    exact isClean_of_mem_identifier (Bool.and_eq_true_iff.mp hkey).1 h
  · exact isClean_of_mem_quote h

theorem newline_not_mem_quote (s : String) : '\n' ∉ (quote s).toList := fun h =>
  ne_newline_of_isClean (isClean_of_mem_quote h) rfl

theorem newline_not_mem_keyText (key : String) : '\n' ∉ (keyText key).toList := fun h =>
  ne_newline_of_isClean (isClean_of_mem_keyText h) rfl

namespace Json

theorem newline_not_mem_quoted (s : String) : '\n' ∉ (quoted s).toList := by
  -- An escape is made of clean characters, and a line end never stands there itself.
  have hchar : ∀ c, '\n' ∉ escaped c := by
    intro c
    unfold escaped
    split
    · decide
    · decide
    · decide
    · decide
    · decide
    · decide
    · decide
    · rename_i hnewline _ _
      split
      · intro h
        rcases List.mem_cons.mp h with h | h
        · exact absurd h (by decide)
        · rcases List.mem_cons.mp h with h | h
          · exact absurd h (by decide)
          · exact ne_newline_of_isClean (isClean_of_isNumberMark
              (isNumberMark_of_mem_padded (by omega) (by omega) h)) rfl
      · intro h
        exact hnewline (List.mem_singleton.mp h).symm
  rw [quoted, String.toList_ofList]
  intro h
  rcases List.mem_cons.mp h with h | h
  · exact absurd h (by decide)
  · rcases List.mem_append.mp h with h | h
    · obtain ⟨c, _, hc⟩ := List.mem_flatMap.mp h
      exact hchar c hc
    · exact absurd h (by decide)

/-- A list in brackets holds no line end if none of its texts does. -/
theorem newline_not_mem_enclosed {opening separator closing : String} {texts : List String}
    (ho : '\n' ∉ opening.toList) (hs : '\n' ∉ separator.toList) (hc : '\n' ∉ closing.toList)
    (h : ∀ t ∈ texts, '\n' ∉ t.toList) :
    '\n' ∉ (opening ++ separator.intercalate texts ++ closing).toList := by
  rw [String.toList_append, String.toList_append, String.toList_intercalate]
  intro hmem
  rcases List.mem_append.mp hmem with hmem | hmem
  · rcases List.mem_append.mp hmem with hmem | hmem
    · exact ho hmem
    · rcases Text.mem_intercalate hmem with hmem | ⟨t, ht, hmem⟩
      · exact hs hmem
      · obtain ⟨u, hu, rfl⟩ := List.mem_map.mp ht
        exact h u hu hmem
  · exact hc hmem

mutual

/-- A JSON text is one line. -/
theorem newline_not_mem_compact : ∀ v : Json, '\n' ∉ v.compact.toList
  | .null => by rw [compact]; decide
  | .bool true => by rw [compact]; decide
  | .bool false => by rw [compact]; decide
  | .number n => fun h =>
      ne_newline_of_isClean (isClean_of_isNumberMark (JsonNumber.isNumberMark_of_mem_compact h)) rfl
  | .text s => newline_not_mem_quoted s
  | .array items => by
      rw [compact]
      exact newline_not_mem_enclosed (by decide) (by decide) (by decide)
        (newline_not_mem_compactItems items)
  | .object members => by
      rw [compact]
      exact newline_not_mem_enclosed (by decide) (by decide) (by decide)
        (newline_not_mem_compactMembers members)

theorem newline_not_mem_compactItems : ∀ items : List Json,
    ∀ t ∈ compactItems items, '\n' ∉ t.toList
  | [] => by
      intro t ht
      exact absurd ht List.not_mem_nil
  | v :: rest => by
      intro t ht
      rcases List.mem_cons.mp ht with rfl | ht
      · exact newline_not_mem_compact v
      · exact newline_not_mem_compactItems rest t ht

theorem newline_not_mem_compactMembers : ∀ members : List (String × Json),
    ∀ t ∈ compactMembers members, '\n' ∉ t.toList
  | [] => by
      intro t ht
      exact absurd ht List.not_mem_nil
  | (key, v) :: rest => by
      intro t ht
      rcases List.mem_cons.mp ht with rfl | ht
      · rw [String.toList_append, String.toList_append]
        intro h
        rcases List.mem_append.mp h with h | h
        · rcases List.mem_append.mp h with h | h
          · exact newline_not_mem_quoted key h
          · exact absurd h (by decide)
        · exact newline_not_mem_compact v h
      · exact newline_not_mem_compactMembers rest t ht

end

end Json

/-- A text in the column of a level. -/
def indented (level : Nat) (cs : List Char) : List Char := List.replicate (2 * level) ' ' ++ cs

namespace Line

/-- What stands on a line behind its indentation and its mark. -/
def text : Line → String
  | entry _ _ text => text
  | content _ text => text
  | blank => ""

/-- A line begins at a level or deeper; an item mark counts as its beginning.
    A line without text begins nowhere. -/
def Below (n : Nat) : Line → Prop
  | entry level true _ => n + 1 ≤ level
  | entry level false _ => n ≤ level
  | content level _ => n ≤ level
  | blank => True

/-- A line that is one line and begins at a level or deeper. -/
structure Fits (n : Nat) (line : Line) : Prop where
  below : line.Below n
  single : '\n' ∉ line.text.toList

theorem Below.mono {m n : Nat} {line : Line} (hmn : m ≤ n) (h : line.Below n) :
    line.Below m := by
  cases line with
  | entry level item text => cases item <;> simp only [Below] at h ⊢ <;> omega
  | content level text =>
      simp only [Below] at h ⊢
      omega
  | blank => trivial

/-- A mark moves a line one level to the left. -/
theorem Below.mark {n : Nat} {line : Line} (h : line.Below (n + 1)) : line.mark.Below n := by
  cases line with
  | entry level item text => cases item <;> simp only [Below, Line.mark] at h ⊢ <;> omega
  | content level text =>
      simp only [Below, Line.mark] at h ⊢
      omega
  | blank => trivial

theorem Fits.mono {m n : Nat} {line : Line} (hmn : m ≤ n) (h : line.Fits n) : line.Fits m :=
  ⟨h.below.mono hmn, h.single⟩

theorem Fits.mark {n : Nat} {line : Line} (h : line.Fits (n + 1)) : line.mark.Fits n := by
  refine ⟨h.below.mark, ?_⟩
  cases line <;> exact h.single

/-- The characters of a line: nothing, or a text in the column of a level,
    perhaps behind the mark of an item. -/
theorem toList_render (line : Line) :
    line.render.toList =
      match line with
      | entry level true text => indented (level - 1) ('-' :: ' ' :: text.toList)
      | entry level false text => indented level text.toList
      | content level text => indented level text.toList
      | blank => [] := by
  cases line with
  | entry level item text =>
      cases item <;>
        simp [render, indentation, indented, String.toList_append, String.toList_ofList]
  | content level text =>
      simp [render, indentation, indented, String.toList_append, String.toList_ofList]
  | blank => rfl

theorem newline_not_mem_indented {level : Nat} {cs : List Char} (h : '\n' ∉ cs) :
    '\n' ∉ indented level cs := by
  intro hmem
  rcases List.mem_append.mp hmem with hmem | hmem
  · exact absurd (List.eq_of_mem_replicate hmem) (by decide)
  · exact h hmem

theorem Fits.newline_not_mem_render {n : Nat} {line : Line} (h : line.Fits n) :
    '\n' ∉ line.render.toList := by
  rw [toList_render]
  cases line with
  | entry level item text =>
      have hs : '\n' ∉ text.toList := h.single
      cases item with
      | false => exact newline_not_mem_indented hs
      | true => exact newline_not_mem_indented (by simpa using hs)
  | content level text => exact newline_not_mem_indented h.single
  | blank => exact List.not_mem_nil

/-- A line that begins at a level has the columns of that level in front, or
    nothing at all on it. -/
theorem Below.render_eq {n : Nat} {line : Line} (h : line.Below n) :
    line.render.toList = [] ∨ ∃ cs, line.render.toList = indented n cs := by
  have hdeep : ∀ {level : Nat} (cs : List Char), n ≤ level →
      ∃ cs', indented level cs = indented n cs' := by
    intro level cs hle
    refine ⟨indented (level - n) cs, ?_⟩
    rw [indented, indented, indented, ← List.append_assoc, List.replicate_append_replicate]
    congr 2
    omega
  rw [toList_render]
  cases line with
  | entry level item text =>
      cases item with
      | false => exact .inr (hdeep _ h)
      | true =>
          simp only [Below] at h
          exact .inr (hdeep _ (by omega))
  | content level text => exact .inr (hdeep _ h)
  | blank => exact .inl rfl

end Line

/-- A mark moves a block one level to the left. -/
theorem fits_markFirst {n : Nat} {lines : List Line} (h : ∀ l ∈ lines, l.Fits (n + 1)) :
    ∀ l ∈ markFirst lines, l.Fits n := by
  cases lines with
  | nil => exact fun l hl => absurd hl List.not_mem_nil
  | cons line rest =>
      intro l hl
      rcases List.mem_cons.mp hl with rfl | hl
      · exact (h line List.mem_cons_self).mark
      · exact (h l (List.mem_cons_of_mem _ hl)).mono (Nat.le_succ n)

theorem fits_heading (level : Nat) (key : String) : (heading level key).Fits level := by
  refine ⟨Nat.le_refl level, ?_⟩
  rw [heading, Line.text, String.toList_append]
  intro h
  rcases List.mem_append.mp h with h | h
  · exact newline_not_mem_keyText key h
  · exact absurd h (by decide)

theorem fits_bareField (level : Nat) (key : String) {value : String} (h : '\n' ∉ value.toList) :
    (bareField level key value).Fits level := by
  refine ⟨Nat.le_refl level, ?_⟩
  rw [bareField, Line.text, String.toList_append, String.toList_append]
  intro hmem
  rcases List.mem_append.mp hmem with hmem | hmem
  · rcases List.mem_append.mp hmem with hmem | hmem
    · exact newline_not_mem_keyText key hmem
    · exact absurd hmem (by decide)
  · exact h hmem

theorem fits_quotedField (level : Nat) (key value : String) :
    (quotedField level key value).Fits level :=
  fits_bareField level key (newline_not_mem_quote value)

theorem fits_inlineField (level : Nat) (key : String) {items : List String}
    (h : ∀ t ∈ items, '\n' ∉ t.toList) : (inlineField level key items).Fits level :=
  fits_bareField level key (Json.newline_not_mem_enclosed (by decide) (by decide) (by decide) h)

theorem newline_not_mem_blockHeader (lines : List (List Char)) (trailing : Nat) :
    '\n' ∉ ("|" ++ depthMark lines ++ chomping trailing).toList := by
  have hdepth : depthMark lines = "2" ∨ depthMark lines = "" := by
    unfold depthMark
    split
    · exact .inl rfl
    · exact .inr rfl
  have hchomp : chomping trailing = "-" ∨ chomping trailing = "" ∨ chomping trailing = "+" := by
    unfold chomping
    split
    · exact .inl rfl
    · exact .inr (.inl rfl)
    · exact .inr (.inr rfl)
  rcases hdepth with h | h <;> rcases hchomp with h' | h' | h' <;> rw [h, h'] <;> decide

/-- A prompt and what stands below it fit the level of its key. -/
theorem fits_proseField (level : Nat) (key text : String) :
    ∀ l ∈ proseField level key text, l.Fits level := by
  intro l hl
  simp only [proseField] at hl
  split at hl
  · rw [List.mem_singleton.mp hl]
    exact fits_quotedField level key text
  · rcases List.mem_cons.mp hl with rfl | hl
    · exact fits_bareField level key (newline_not_mem_blockHeader _ _)
    · rcases List.mem_append.mp hl with hl | hl
      · obtain ⟨run, hrun, rfl⟩ := List.mem_map.mp hl
        rw [blockLine]
        split
        · exact ⟨trivial, List.not_mem_nil⟩
        · refine ⟨Nat.le_succ level, ?_⟩
          rw [Line.text, String.toList_ofList]
          exact Text.not_mem_of_mem_split _ run hrun
      · rw [List.eq_of_mem_replicate hl]
        exact ⟨trivial, List.not_mem_nil⟩

theorem newline_not_mem_scalarItem (v : Json) : '\n' ∉ (scalarItem v).toList := by
  unfold scalarItem
  split
  · exact newline_not_mem_quote _
  · exact Json.newline_not_mem_compact v

theorem fits_item (level : Nat) {text : String} (h : '\n' ∉ text.toList) :
    (Line.content level ("- " ++ text)).Fits level := by
  refine ⟨Nat.le_refl level, ?_⟩
  rw [Line.text, String.toList_append]
  intro hmem
  rcases List.mem_append.mp hmem with hmem | hmem
  · exact absurd hmem (by decide)
  · exact h hmem

mutual

/-- A value and what stands below it fit the level of its key. -/
theorem fits_valueField (level : Nat) (key : String) :
    ∀ v : Json, ∀ l ∈ valueField level key v, l.Fits level
  | .null => fun l hl => absurd hl List.not_mem_nil
  | .bool b => by
      intro l hl
      rw [List.mem_singleton.mp hl]
      exact fits_bareField level key (Json.newline_not_mem_compact (.bool b))
  | .number n => by
      intro l hl
      rw [List.mem_singleton.mp hl]
      exact fits_bareField level key (Json.newline_not_mem_compact (.number n))
  | .text s => by
      intro l hl
      rw [valueField] at hl
      split at hl
      · exact fits_proseField level key s l hl
      · rw [List.mem_singleton.mp hl]
        exact fits_quotedField level key s
  | .array items => by
      have hitems := fits_itemLines (level + 1) items
      intro l hl
      rw [valueField] at hl
      split at hl
      · rw [List.mem_singleton.mp hl]
        refine fits_inlineField level key (fun t ht => ?_)
        obtain ⟨v, _, rfl⟩ := List.mem_map.mp ht
        exact newline_not_mem_scalarItem v
      · rcases List.mem_cons.mp hl with rfl | hl
        · exact fits_heading level key
        · exact (hitems l hl).mono (Nat.le_succ level)
  | .object members => by
      have hmembers := fits_memberLines (level + 1) members
      intro l hl
      rw [valueField] at hl
      split at hl
      · rw [List.mem_singleton.mp hl]
        exact fits_bareField level key (by decide)
      · rcases List.mem_cons.mp hl with rfl | hl
        · exact fits_heading level key
        · exact (hmembers l hl).mono (Nat.le_succ level)

theorem fits_itemLines (level : Nat) :
    ∀ items : List Json, ∀ l ∈ itemLines level items, l.Fits level
  | [] => fun l hl => absurd hl List.not_mem_nil
  | v :: rest => by
      intro l hl
      rw [itemLines] at hl
      rcases List.mem_append.mp hl with hl | hl
      · exact fits_itemBlock level v l hl
      · exact fits_itemLines level rest l hl

theorem fits_itemBlock (level : Nat) : ∀ v : Json, ∀ l ∈ itemBlock level v, l.Fits level
  | .object members => by
      have hmembers := fits_memberLines (level + 1) members
      intro l hl
      rw [itemBlock] at hl
      split at hl
      · rw [List.mem_singleton.mp hl]
        exact fits_item level (Json.newline_not_mem_compact (.object members))
      · exact fits_markFirst hmembers l hl
  | .array items => by
      intro l hl
      rw [List.mem_singleton.mp hl]
      exact fits_item level (Json.newline_not_mem_compact (.array items))
  | .null => by
      intro l hl
      rw [List.mem_singleton.mp hl]
      exact fits_item level (newline_not_mem_scalarItem .null)
  | .bool b => by
      intro l hl
      rw [List.mem_singleton.mp hl]
      exact fits_item level (newline_not_mem_scalarItem (.bool b))
  | .number n => by
      intro l hl
      rw [List.mem_singleton.mp hl]
      exact fits_item level (newline_not_mem_scalarItem (.number n))
  | .text s => by
      intro l hl
      rw [List.mem_singleton.mp hl]
      exact fits_item level (newline_not_mem_scalarItem (.text s))

theorem fits_memberLines (level : Nat) :
    ∀ members : List (String × Json), ∀ l ∈ memberLines level members, l.Fits level
  | [] => fun l hl => absurd hl List.not_mem_nil
  | (key, v) :: rest => by
      intro l hl
      rw [memberLines] at hl
      rcases List.mem_append.mp hl with hl | hl
      · exact fits_valueField level key v l hl
      · exact fits_memberLines level rest l hl

end

/-- A rendered text is its lines, each with its end. -/
theorem toList_renderLines (lines : List Line) :
    (renderLines lines).toList = (lines.map fun l => l.render.toList).flatMap (· ++ ['\n']) := by
  simp [renderLines, String.toList_join, List.flatMap_map, String.toList_append]

/-- The lines of a rendered text can be told from the text. -/
theorem split_renderLines {lines : List Line} (h : ∀ l ∈ lines, l.Fits 0) :
    Text.split '\n' (renderLines lines).toList = lines.map (fun l => l.render.toList) ++ [[]] := by
  rw [toList_renderLines]
  refine Text.split_ended (fun run hrun => ?_)
  obtain ⟨l, hl, rfl⟩ := List.mem_map.mp hrun
  exact (h l hl).newline_not_mem_render

end SimStudio
