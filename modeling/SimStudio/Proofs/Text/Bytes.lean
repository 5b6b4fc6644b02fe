import SimStudio.Proofs.Text.Splicing

/-!
# Splicing by Bytes

A text is stored as bytes, one to four for a character, and it is these that a splice
cuts. The place of a cut is told by a number of characters, so it has to be found
first: characters are gone through with the offset at which each begins, and the end
of the text stands for all numbers beyond the last one.

An offset that is found like this is never within a character, since it is the size
of the characters before it (`byteOffset_eq`). Two of them are in the order of their
numbers. So both cuts of a splice are good and the bytes between them can be left out
(`toByteArray_spliced`). What was left out can be put back, too: the literal is now
where it stood, and its end is the caret (`spliced_undone`).

## Main definitions

* `charOffsets`: The offsets at which characters begin.
* `byteOffset`: The offset at which the character with a number begins.
* `replaced`: The characters that a splice takes out.

## Theorems

* `byteOffset_eq`: An offset is the size of the characters before it.
* `offset_charPosition`: A text is cut at the offset of a character.
* `byteOffset_mono`: Later characters begin at greater offsets.
* `toByteArray_spliced`: The bytes of a text after a splice.
* `spliced_undone`: What was taken out can be put back.
* `splice_by_bytes`: What a splice does to characters and to bytes.
-/

namespace SimStudio

/-- The offsets at which the characters of a text begin, if the first one begins at
    `start`. -/
def charOffsets (start : Nat) : List Char → List Nat
  | [] => []
  | c :: cs => start :: charOffsets (start + c.utf8Size) cs

/-- The offset at which the character with a number begins, or else the size of the
    text. -/
def byteOffset (text : String) (index : Nat) : Nat :=
  (charOffsets 0 text.toList)[index]?.getD text.utf8ByteSize

/-- The characters from `first` up to `last`, as a text. -/
def replaced (buffer : String) (first last : Nat) : String :=
  String.ofList ((buffer.toList.drop first).take (last - first))

-- ## Offsets of Characters

/-- A character begins where those before it end. -/
theorem getD_charOffsets (start index : Nat) (cs : List Char) :
    (charOffsets start cs)[index]?.getD (start + (String.ofList cs).utf8ByteSize) =
      start + (String.ofList (cs.take index)).utf8ByteSize := by
  -- The first character begins where the walk has come to, so the start is general.
  induction cs generalizing start index with
  | nil =>
      rw [List.take_nil]
      rfl
  | cons c cs ih =>
      have hsize (ds : List Char) : (String.ofList (c :: ds)).utf8ByteSize =
          c.utf8Size + (String.ofList ds).utf8ByteSize := by
        rw [String.ofList_cons, String.utf8ByteSize_append, String.utf8ByteSize_singleton]
      cases index with
      | zero => rfl
      | succ index =>
          rw [charOffsets, List.getElem?_cons_succ, List.take_succ_cons, hsize, hsize,
            ← Nat.add_assoc, ← Nat.add_assoc]
          exact ih (start + c.utf8Size) index

/-- An offset is the size of the characters before it. -/
theorem byteOffset_eq (text : String) (index : Nat) :
    byteOffset text index = (String.ofList (text.toList.take index)).utf8ByteSize := by
  have hwalk := getD_charOffsets 0 index text.toList
  rw [String.ofList_toList, Nat.zero_add, Nat.zero_add] at hwalk
  exact hwalk

/-- The arrow has three bytes. -/
example : byteOffset "a→b" 2 = 4 := by decide

/-- The position that a text is cut at is the offset of a character. -/
theorem offset_charPosition (text : String) (index : Nat) :
    (charPosition text index).offset = ⟨byteOffset text index⟩ := by
  rw [(splits_charPosition text index).offset_eq_rawEndPos, byteOffset_eq]
  rfl

/-- An offset is a place between two characters, or an end of the text. -/
theorem isValid_byteOffset (text : String) (index : Nat) :
    String.Pos.Raw.IsValid text ⟨byteOffset text index⟩ := by
  rw [← offset_charPosition]
  exact (charPosition text index).isValid

/-- Later characters begin at greater offsets. -/
theorem byteOffset_mono (text : String) {first last : Nat} (h : first ≤ last) :
    byteOffset text first ≤ byteOffset text last := by
  have hparts : text.toList.take last =
      text.toList.take first ++ (text.toList.drop first).take (last - first) := by
    rw [← List.take_add, Nat.add_sub_cancel' h]
  rw [byteOffset_eq, byteOffset_eq, hparts, String.ofList_append, String.utf8ByteSize_append]
  exact Nat.le_add_right _ _

-- ## Splices

/-- The bytes of a text up to the one cut, those of the literal, and those of the text
    from the other cut on. -/
theorem toByteArray_spliced (buffer : String) (first last : Nat) (literal : String) :
    (spliced buffer first last literal).toByteArray =
      buffer.toByteArray.extract 0 (byteOffset buffer first) ++ literal.toByteArray ++
        buffer.toByteArray.extract (byteOffset buffer last) buffer.utf8ByteSize := by
  have hhead := (splits_charPosition buffer first).toByteArray_left_eq
  have htail := (splits_charPosition buffer last).toByteArray_right_eq
  rw [offset_charPosition] at hhead htail
  rw [← hhead, ← htail, ← String.toByteArray_append, ← String.toByteArray_append, spliced,
    String.ofList_append, String.ofList_append, String.ofList_toList]

theorem toList_spliced (buffer : String) (first last : Nat) (literal : String) :
    (spliced buffer first last literal).toList =
      buffer.toList.take first ++ literal.toList ++ buffer.toList.drop last :=
  String.toList_ofList

/-- The literal stands where the characters were that it has replaced. With those in its
    place the text is as it was, and the caret is where the selection ended. -/
theorem spliced_undone {buffer : String} {first last : Nat} (literal : String)
    (hfirst : first ≤ last) (hlast : last ≤ buffer.length) :
    spliced (spliced buffer first last literal) first (first + literal.length)
        (replaced buffer first last) = buffer ∧
      first + (replaced buffer first last).length = last := by
  rcases exists_parts hfirst hlast with ⟨before, taken, after, rfl, hbefore, htaken⟩
  have hreplaced : replaced (String.ofList (before ++ taken ++ after)) first last =
      String.ofList taken := by
    rw [replaced, String.toList_ofList, List.append_assoc, List.drop_left' hbefore, ← htaken,
      Nat.add_sub_cancel_left, List.take_left]
  have hliteral : first + literal.toList.length = first + literal.length := by
    rw [String.length_toList]
  rw [hreplaced, String.length_ofList, spliced_parts hbefore htaken,
    spliced_parts hbefore hliteral, String.toList_ofList]
  exact ⟨rfl, htaken⟩

/-- A splice keeps the characters before and behind the selection, with the literal
    between them and the caret behind it. It does so by cutting bytes at two places
    between characters, the one not behind the other. The characters that were taken out
    can be spliced in again. A selection that is not within the text is a fault, and
    that it is reversed is told first. -/
theorem splice_by_bytes (buffer literal : String) (first last : Nat) :
    let head := byteOffset buffer first
    let tail := byteOffset buffer last
    if last < first then
      splice buffer first last literal = .error (.selectionReversed first last)
    else if buffer.length < last then
      splice buffer first last literal = .error (.selectionPastEnd last)
    else
      ∃ made, splice buffer first last literal = .ok made ∧
        made.text.toList = buffer.toList.take first ++ literal.toList ++ buffer.toList.drop last ∧
        made.caret = first + literal.length ∧ made.caret ≤ made.text.length ∧
        (charPosition buffer first).offset = ⟨head⟩ ∧ String.Pos.Raw.IsValid buffer ⟨head⟩ ∧
        (charPosition buffer last).offset = ⟨tail⟩ ∧ String.Pos.Raw.IsValid buffer ⟨tail⟩ ∧
        head ≤ tail ∧ tail ≤ buffer.utf8ByteSize ∧
        made.text.toByteArray = buffer.toByteArray.extract 0 head ++ literal.toByteArray ++
          buffer.toByteArray.extract tail buffer.utf8ByteSize ∧
        splice made.text first made.caret (replaced buffer first last) = .ok ⟨buffer, last⟩ := by
  intro head tail
  by_cases hreversed : last < first
  · rw [if_pos hreversed, splice, if_pos hreversed]
  · by_cases hpast : buffer.length < last
    · rw [if_neg hreversed, if_pos hpast, splice, if_neg hreversed, if_pos hpast]
    · have hfirst : first ≤ last := Nat.le_of_not_lt hreversed
      have hlast : last ≤ buffer.length := Nat.le_of_not_lt hpast
      have hcaret : first + literal.length ≤ (spliced buffer first last literal).length := by
        rw [length_spliced literal hfirst hlast]
        omega
      -- Splicing once more at the places of the literal takes it out again.
      have hundo : splice (spliced buffer first last literal) first (first + literal.length)
          (replaced buffer first last) = .ok ⟨buffer, last⟩ := by
        rcases spliced_undone literal hfirst hlast with ⟨htext, hback⟩
        rw [splice_eq_ok _ (Nat.le_add_right _ _) hcaret, htext, hback]
      rw [if_neg hreversed, if_neg hpast]
      exact ⟨_, splice_eq_ok literal hfirst hlast, toList_spliced .., rfl, hcaret,
        offset_charPosition .., isValid_byteOffset .., offset_charPosition ..,
        isValid_byteOffset .., byteOffset_mono buffer hfirst,
        (isValid_byteOffset buffer last).le_utf8ByteSize, toByteArray_spliced .., hundo⟩

end SimStudio
