import SimStudio.TextControl

/-!
# Splicing by Characters

A splice cuts a text at positions in its encoding. Seen by its characters it
keeps those before the selection, puts the literal behind them, and goes on with
those after the selection. Every position that is cut at stands before a
character or at the end, so nothing can go wrong within the text.

## Main definitions

* `spliced`: The characters that a splice leads to.

## Theorems

* `exists_parts`, `spliced_parts`: A splice puts a literal for one part of a text.
* `splits_charPosition`: Where a text is cut at the position of a character.
* `splice_eq_ok`, `within_of_splice`: A selection within the text is spliced, and no
  other.
* `length_spliced`: How long a text is after a splice.
* `TextControl.insert_eq_ok`: So is that of a control, and the caret waits.
-/

namespace SimStudio

/-- A text with a literal in the place of the characters from `first` up to
    `last`. -/
def spliced (buffer : String) (first last : Nat) (literal : String) : String :=
  String.ofList (buffer.toList.take first ++ literal.toList ++ buffer.toList.drop last)

/-- A selection parts a text into what stands before it, what it holds, and what stands
    behind it. -/
theorem exists_parts {buffer : String} {first last : Nat} (hfirst : first ≤ last)
    (hlast : last ≤ buffer.length) : ∃ before taken after,
      buffer = String.ofList (before ++ taken ++ after) ∧ before.length = first ∧
        first + taken.length = last := by
  have hlength : buffer.toList.length = buffer.length := String.length_toList
  refine ⟨buffer.toList.take first, (buffer.toList.drop first).take (last - first),
    buffer.toList.drop last, ?_, ?_, ?_⟩
  · rw [← List.take_add, Nat.add_sub_cancel' hfirst, List.take_append_drop, String.ofList_toList]
  · rw [List.length_take]
    omega
  · rw [List.length_take, List.length_drop]
    omega

/-- A splice puts the literal in the place of what a selection holds. -/
theorem spliced_parts {before taken after : List Char} {first last : Nat}
    (hfirst : before.length = first) (hlast : first + taken.length = last) (literal : String) :
    spliced (String.ofList (before ++ taken ++ after)) first last literal =
      String.ofList (before ++ literal.toList ++ after) := by
  have htail : (before ++ taken).length = last := by
    rw [List.length_append, hfirst, hlast]
  rw [spliced, String.toList_ofList, List.drop_left' htail, List.append_assoc before taken,
    List.take_left' hfirst]

/-- The position of a character parts the characters before it from the rest. -/
theorem splits_charPosition (text : String) (index : Nat) :
    (charPosition text index).Splits (String.ofList (text.toList.take index))
      (String.ofList (text.toList.drop index)) := by
  have hstart := (text.splits_startPos).nextn index
  rw [String.empty_append] at hstart
  exact hstart

/-- A selection within the text is spliced, and the caret comes to stand behind
    the literal. -/
theorem splice_eq_ok {buffer : String} {first last : Nat} (literal : String)
    (hfirst : first ≤ last) (hlast : last ≤ buffer.length) :
    splice buffer first last literal =
      .ok ⟨spliced buffer first last literal, first + literal.length⟩ := by
  have hhead := (splits_charPosition buffer first).copy_sliceTo_eq
  have htail := (splits_charPosition buffer last).copy_sliceFrom_eq
  rw [splice, if_neg (Nat.not_lt.mpr hfirst), if_neg (Nat.not_lt.mpr hlast)]
  simp only [hhead, htail, spliced, String.ofList_append, String.ofList_toList]

/-- Nothing else is spliced. -/
theorem within_of_splice {buffer literal : String} {first last : Nat} {s : Splice}
    (h : splice buffer first last literal = .ok s) : first ≤ last ∧ last ≤ buffer.length := by
  unfold splice at h
  by_cases hfirst : last < first
  · rw [if_pos hfirst] at h
    cases h
  · by_cases hlast : buffer.length < last
    · rw [if_neg hfirst, if_pos hlast] at h
      cases h
    · exact ⟨Nat.le_of_not_lt hfirst, Nat.le_of_not_lt hlast⟩

/-- What stands before a selection, the literal and what stands behind the selection
    make up the length. -/
theorem length_spliced {buffer : String} {first last : Nat} (literal : String)
    (hfirst : first ≤ last) (hlast : last ≤ buffer.length) :
    (spliced buffer first last literal).length =
      first + literal.length + (buffer.length - last) := by
  have hcut : min first buffer.toList.length = first :=
    Nat.min_eq_left (by rw [String.length_toList]; omega)
  rw [spliced, String.length_ofList, List.length_append, List.length_append, List.length_take,
    List.length_drop, hcut, String.length_toList, String.length_toList]

namespace TextControl

/-- What is put in at a selection within the text is for the owner of the text,
    and the caret behind it waits. -/
theorem insert_eq_ok {c : TextControl} (literal : String) (scheduler : CaretScheduler)
    (hfirst : c.selection.1 ≤ c.selection.2) (hlast : c.selection.2 ≤ c.value.length) :
    insert (some c) literal scheduler =
      .ok (some ⟨spliced c.value c.selection.1 c.selection.2 literal,
        c.selection.1 + literal.length⟩, ⟨some (c.selection.1 + literal.length)⟩) := by
  rw [insert, splice_eq_ok literal hfirst hlast]
  rfl

end TextControl

end SimStudio
