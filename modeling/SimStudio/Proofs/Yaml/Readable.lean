import SimStudio.Proofs.Yaml.Scanning

/-!
# Written Trees Are Readable

A written text has no characters that a reader refuses. Those of a text that
could not stand in the file are escaped, and all others are printable.

## Theorems

* `Yaml.isReadable_of_mem_scalarIn`: The characters of a scalar.
* `Yaml.Tree.readable`: The characters of a tree.
* `Yaml.Tree.tokens?_write`: The tokens of a written mapping.
-/

namespace SimStudio

namespace Yaml

theorem isReadable_of_isNumberMark {c : Char} (h : isNumberMark c = true) : isReadable c = true :=
  isReadable_of_isPrintable (unmarked_of_isNumberMark h).printable

theorem isReadable_of_mem_spaces {n : Nat} {c : Char} (h : c ∈ spaces n) : isReadable c = true := by
  rw [eq_space_of_mem_spaces h]
  decide

theorem isReadable_of_escape? {e c : Char} (h : escape? e = some c) : isReadable e = true := by
  unfold escape? at h
  split at h
  all_goals first
    | decide
    | cases h

theorem isReadable_of_hexWidth? {e : Char} {width : Nat} (h : hexWidth? e = some width) :
    isReadable e = true := by
  unfold hexWidth? at h
  split at h
  all_goals first
    | decide
    | cases h

/-- What stands for a character in double quotes is readable, if it is not the
    character itself, or that is. -/
theorem Escape.isReadable_of_mem {c d : Char} {code : List Char} (h : Escape c code)
    (hself : code = [c] → isReadable c = true) (hd : d ∈ code) : isReadable d = true := by
  cases h with
  | plain =>
      rw [List.mem_singleton.mp hd]
      exact hself rfl
  | letter he =>
      rcases List.mem_cons.mp hd with rfl | hd
      · decide
      · rw [List.mem_singleton.mp hd]
        exact isReadable_of_escape? he
  | code hwidth =>
      rcases List.mem_cons.mp hd with rfl | hd
      · decide
      · rcases List.mem_cons.mp hd with rfl | hd
        · exact isReadable_of_hexWidth? hwidth
        · exact isReadable_of_isNumberMark (isNumberMark_of_mem_padded (by omega) (by omega) hd)

theorem isReadable_of_mem_doubleEscaped {c d : Char} (h : d ∈ doubleEscaped c) :
    isReadable d = true :=
  (escape_doubleEscaped c).isReadable_of_mem
    (fun hself => isReadable_of_isPrintable (isPrintable_of_doubleEscaped hself)) h

theorem isReadable_of_mem_singleBody {indent : Nat} {cs : List Char}
    (hcs : ∀ c ∈ cs, isReadable c = true) (newLine : Bool) :
    ∀ c ∈ singleBody indent cs newLine, isReadable c = true := by
  have hmargin : ∀ (newLine : Bool), ∀ c ∈ (if newLine then spaces indent else []),
      isReadable c = true := by
    intro newLine c hc
    split at hc
    · exact isReadable_of_mem_spaces hc
    · exact absurd hc List.not_mem_nil
  -- The characters stand there themselves, a quote twice, with margins between the lines.
  induction cs generalizing newLine with
  | nil =>
      intro c hc
      rcases List.mem_append.mp hc with hc | hc
      · exact hmargin newLine c hc
      · rw [List.mem_singleton.mp hc]
        decide
  | cons d cs ih =>
      have hd := hcs d List.mem_cons_self
      have hrest := fun newLine => ih (fun c hc => hcs c (List.mem_cons_of_mem _ hc)) newLine
      intro c hc
      rw [singleBody] at hc
      split at hc
      · rcases List.mem_cons.mp hc with rfl | hc
        · exact hd
        · exact hrest true c hc
      · rcases List.mem_append.mp hc with hc | hc
        · exact hmargin newLine c hc
        · rcases List.mem_append.mp hc with hc | hc
          · split at hc
            · simp only [List.mem_cons, List.not_mem_nil, or_false, or_self] at hc
              rw [hc]
              decide
            · rw [List.mem_singleton.mp hc]
              exact hd
          · exact hrest false c hc

theorem isReadable_of_mem_literalBody {indent : Nat} {cs : List Char}
    (hcs : ∀ c ∈ cs, isReadable c = true) (newLine : Bool) :
    ∀ c ∈ literalBody indent cs newLine, isReadable c = true := by
  induction cs generalizing newLine with
  | nil =>
      intro c hc
      cases newLine with
      | true => exact absurd hc List.not_mem_nil
      | false =>
          rw [List.mem_singleton.mp hc]
          decide
  | cons d cs ih =>
      have hd := hcs d List.mem_cons_self
      have hrest := fun newLine => ih (fun c hc => hcs c (List.mem_cons_of_mem _ hc)) newLine
      intro c hc
      rw [literalBody] at hc
      split at hc
      · rcases List.mem_cons.mp hc with rfl | hc
        · exact hd
        · exact hrest true c hc
      · rcases List.mem_append.mp hc with hc | hc
        · split at hc
          · exact isReadable_of_mem_spaces hc
          · exact absurd hc List.not_mem_nil
        · rcases List.mem_cons.mp hc with rfl | hc
          · exact hd
          · exact hrest false c hc

/-- A scalar has only characters that a reader accepts. -/
theorem isReadable_of_mem_scalarIn (s : String) (indent : Nat) :
    ∀ c ∈ scalarIn (styleOf s) indent s.toList, isReadable c = true := by
  cases hstyle : styleOf s with
  | plain =>
      obtain ⟨first, cs, hs, hplain, -⟩ := isPlain_of_styleOf hstyle
      rw [scalarIn, hs]
      exact fun c hc => isReadable_of_isPrintable (hplain.printable c hc)
  | singleQuoted =>
      have hsingle := isSingle_of_styleOf hstyle
      rw [scalarIn]
      refine List.forall_mem_cons.mpr ⟨by decide, isReadable_of_mem_singleBody (fun c hc => ?_) false⟩
      exact isReadable_of_isPrintable (hsingle.printable c hc)
  | doubleQuoted =>
      rw [scalarIn]
      refine List.forall_mem_cons.mpr ⟨by decide, fun c hc => ?_⟩
      rcases List.mem_append.mp hc with hc | hc
      · obtain ⟨d, -, hd⟩ := List.mem_flatMap.mp hc
        exact isReadable_of_mem_doubleEscaped hd
      · rw [List.mem_singleton.mp hc]
        decide
  | literal =>
      have hblock := isBlock_of_styleOf hstyle
      -- The header is a bar, a digit for the depth if need be, and a sign for the line ends.
      have hheader : ∀ c ∈ literalHeader s.toList, isReadable c = true := by
        rw [literalHeader_eq]
        refine List.forall_mem_cons.mpr ⟨by decide, fun c hc => ?_⟩
        rcases List.mem_append.mp hc with hc | hc
        · split at hc
          · rw [List.mem_singleton.mp hc]
            decide
          · exact absurd hc List.not_mem_nil
        · revert hc
          cases headerChomping s.toList <;> intro hc
          · rw [List.mem_singleton.mp hc]
            decide
          · exact absurd hc List.not_mem_nil
          · rw [List.mem_singleton.mp hc]
            decide
      rw [scalarIn]
      intro c hc
      rcases List.mem_append.mp hc with hc | hc
      · exact hheader c hc
      · rcases List.mem_cons.mp hc with rfl | hc
        · decide
        · exact isReadable_of_mem_literalBody
            (fun c hc => isReadable_of_isPrintable (hblock.printable c hc)) true c hc
  | folded => exact absurd hstyle (styleOf_ne_folded s)

theorem isReadable_of_mem_scalarText (s : String) (indent : Nat) :
    ∀ c ∈ scalarText indent s, isReadable c = true := by
  have hscalar := isReadable_of_mem_scalarIn s indent
  have hclosed : ∀ style, styleOf s = style →
      ∀ c ∈ scalarIn style indent s.toList ++ ['\n'], isReadable c = true := by
    intro style hstyle c hc
    rw [hstyle] at hscalar
    rcases List.mem_append.mp hc with hc | hc
    · exact hscalar c hc
    · rw [List.mem_singleton.mp hc]
      decide
  unfold scalarText
  cases hstyle : styleOf s with
  | plain => exact hclosed _ hstyle
  | singleQuoted => exact hclosed _ hstyle
  | doubleQuoted => exact hclosed _ hstyle
  | literal =>
      rw [hstyle] at hscalar
      exact hscalar
  | folded => exact absurd hstyle (styleOf_ne_folded s)

namespace Tree

/-- A tree has only characters that a reader accepts. -/
def Readable (v : Tree) : Prop :=
  ∀ lead indent, ∀ c ∈ v.valueText lead indent, isReadable c = true

theorem isReadable_of_mem_gap {lead : Lead} {c : Char} (h : c ∈ lead.gap) : isReadable c = true := by
  cases lead with
  | begun => exact absurd h List.not_mem_nil
  | afterKey =>
      rw [List.mem_singleton.mp h]
      decide

theorem readable_word {v : Tree} {w : String} (h : v.word? = some w) : v.Readable := by
  obtain ⟨first, cs, htext, hplain⟩ := isPlain_word h
  intro lead indent c hc
  rw [valueText_word h, htext] at hc
  rcases List.mem_append.mp hc with hc | hc
  · exact isReadable_of_mem_gap hc
  · rcases List.mem_append.mp hc with hc | hc
    · exact isReadable_of_isPrintable (hplain.printable c hc)
    · rw [List.mem_singleton.mp hc]
      decide

theorem readable_text (s : String) : (text s).Readable := by
  intro lead indent c hc
  cases lead with
  | begun =>
      rw [valueText] at hc
      exact isReadable_of_mem_scalarText s indent c hc
  | afterKey =>
      rw [valueText] at hc
      rcases List.mem_cons.mp hc with rfl | hc
      · decide
      · exact isReadable_of_mem_scalarText s (indent + 2) c hc

theorem isReadable_of_mem_itemTexts {items : List Tree} (h : ∀ v ∈ items, v.Readable)
    (begun : Bool) (indent : Nat) : ∀ c ∈ itemTexts begun indent items, isReadable c = true := by
  induction items generalizing begun with
  | nil => exact fun c hc => absurd hc List.not_mem_nil
  | cons v items ih =>
      intro c hc
      rw [itemTexts] at hc
      rcases List.mem_append.mp hc with hc | hc
      · split at hc
        · exact absurd hc List.not_mem_nil
        · exact isReadable_of_mem_spaces hc
      · rcases List.mem_cons.mp hc with rfl | hc
        · decide
        · rcases List.mem_cons.mp hc with rfl | hc
          · decide
          · rcases List.mem_append.mp hc with hc | hc
            · exact h v List.mem_cons_self _ _ c hc
            · exact ih (fun v hv => h v (List.mem_cons_of_mem _ hv)) false c hc

theorem isReadable_of_mem_entryText {v : Tree} (h : v.Readable) (indent : Nat) (key : String) :
    ∀ c ∈ entryText indent key v, isReadable c = true := by
  have hmark : isReadable '?' = true ∧ isReadable ':' = true ∧ isReadable ' ' = true := by decide
  intro c hc
  unfold entryText at hc
  split at hc
  · rcases List.mem_append.mp hc with hc | hc
    · exact isReadable_of_mem_scalarIn key _ c hc
    · rcases List.mem_cons.mp hc with rfl | hc
      · exact hmark.2.1
      · exact h _ _ c hc
  · simp only [List.mem_cons, List.mem_append] at hc
    rcases hc with rfl | rfl | hc | hc | rfl | rfl | hc
    · exact hmark.1
    · exact hmark.2.2
    · exact isReadable_of_mem_scalarText key _ c hc
    · exact isReadable_of_mem_spaces hc
    · exact hmark.2.1
    · exact hmark.2.2
    · exact h _ _ c hc

theorem isReadable_of_mem_entryTexts {entries : List (String × Tree)}
    (h : ∀ e ∈ entries, e.2.Readable) (begun : Bool) (indent : Nat) :
    ∀ c ∈ entryTexts begun indent entries, isReadable c = true := by
  induction entries generalizing begun with
  | nil => exact fun c hc => absurd hc List.not_mem_nil
  | cons e entries ih =>
      obtain ⟨key, v⟩ := e
      intro c hc
      rw [entryTexts_cons] at hc
      rcases List.mem_append.mp hc with hc | hc
      · split at hc
        · exact absurd hc List.not_mem_nil
        · exact isReadable_of_mem_spaces hc
      · rcases List.mem_append.mp hc with hc | hc
        · exact isReadable_of_mem_entryText (h _ List.mem_cons_self) indent key c hc
        · exact ih (fun e he => h e (List.mem_cons_of_mem _ he)) false c hc

theorem readable_collection {cs : List Char} (hcs : cs.all isReadable = true) (lead : Lead) :
    ∀ c ∈ lead.gap ++ cs, isReadable c = true := by
  intro c hc
  rcases List.mem_append.mp hc with hc | hc
  · exact isReadable_of_mem_gap hc
  · exact List.all_eq_true.mp hcs c hc

/-- A tree has only characters that a reader accepts. -/
theorem readable (v : Tree) : v.Readable := by
  refine induction (fun _ _ => readable_word) readable_text (fun items h => ?_)
    (fun entries h => ?_) v
  · intro lead indent
    cases lead with
    | begun =>
        rw [valueText]
        split
        · exact readable_collection (by decide) .begun
        · exact isReadable_of_mem_itemTexts h true indent
    | afterKey =>
        rw [valueText]
        split
        · exact readable_collection (by decide) .afterKey
        · exact List.forall_mem_cons.mpr ⟨by decide, isReadable_of_mem_itemTexts h false indent⟩
  · intro lead indent
    cases lead with
    | begun =>
        rw [valueText]
        split
        · exact readable_collection (by decide) .begun
        · exact isReadable_of_mem_entryTexts h true indent
    | afterKey =>
        rw [valueText]
        split
        · exact readable_collection (by decide) .afterKey
        · exact List.forall_mem_cons.mpr ⟨by decide, isReadable_of_mem_entryTexts h false _⟩

/-- The tokens of a written mapping. -/
theorem tokens?_write {entries : List (String × Tree)} (hne : entries ≠ []) :
    tokens? (mapping entries).write = some ((mapping entries).tokens .begun ++ [.streamEnd]) := by
  have hreadable : ((mapping entries).valueText .begun 0).all isReadable = true :=
    List.all_eq_true.mpr (readable _ _ _)
  rw [tokens?, write, String.toList_ofList, if_pos hreadable, run_write hne]

end Tree

end Yaml

end SimStudio
