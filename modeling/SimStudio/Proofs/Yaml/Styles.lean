import SimStudio.Proofs.Yaml.Meaning

/-!
# What the Styles of Scalars Promise

The choice of a style rests on the shape of a text. Whoever reads the scalar
back wants to know the converse: what a text in some style is known not to
contain.

## Main definitions

* `Yaml.Unmarked`: A character that stands for itself.
* `Yaml.IsPlain`: A first character and others that can be a plain scalar.
* `Yaml.IsSingle`: A text that single quotes can carry.
* `Yaml.IsBlock`: A text that a literal block can carry.

## Theorems

* `Yaml.isPlain_of_styleOf`, `Yaml.isSingle_of_styleOf`,
  `Yaml.isBlock_of_styleOf`: The promise of each style.
* `Yaml.isPlain_of_unmarked`: Numbers and names can be plain.
* `Yaml.isReadable_of_isPrintable`: What needs no escape can be read.
-/

namespace SimStudio

namespace Yaml

-- ## Characters

theorem isReadable_of_isPrintable {c : Char} (h : isPrintable c = true) : isReadable c = true := by
  simp only [isPrintable, isReadable, Bool.or_eq_true, Bool.and_eq_true, beq_iff_eq,
    decide_eq_true_eq, bne_iff_ne] at h ⊢
  omega

/-- The only line ends that need no escape are the line feed and the two
    separators. -/
theorem break_cases {c : Char} (h : isBreak c = true) (hprintable : isPrintable c = true) :
    c = '\n' ∨ c = '\u2028' ∨ c = '\u2029' := by
  simp only [isBreak, Bool.or_eq_true, beq_iff_eq] at h
  rcases h with (((h | h) | h) | h) | h
  · exact .inl h
  · subst h
    exact absurd hprintable (by decide)
  · subst h
    exact absurd hprintable (by decide)
  · exact .inr (.inl h)
  · exact .inr (.inr h)

theorem ne_return_of_isPrintable {c : Char} (h : isPrintable c = true) : c ≠ '\r' := by
  rintro rfl
  exact absurd h (by decide)

theorem ne_tab_of_isPrintable {c : Char} (h : isPrintable c = true) : c ≠ '\t' := by
  rintro rfl
  exact absurd h (by decide)

theorem isSpace_iff {c : Char} (h : isPrintable c = true) : isSpace c = true ↔ c = ' ' := by
  have htab := ne_tab_of_isPrintable h
  simp [isSpace, htab]

-- ## Promises

/-- A first character and others that can stand as a plain scalar on one line. -/
structure IsPlain (first : Char) (rest : List Char) : Prop where
  printable : ∀ c ∈ first :: rest, isPrintable c = true
  oneLine : ∀ c ∈ first :: rest, isBreak c = false
  begins : isLeadingMark first = false ∧ first ≠ ' '
  apart : first = '?' ∨ first = ':' ∨ first = '-' → endsWord rest = false
  unmarked : innerMark first rest = false
  noDashes : ['-', '-', '-'].isPrefixOf (first :: rest) = false
  noPoints : ['.', '.', '.'].isPrefixOf (first :: rest) = false
  ends : (first :: rest).getLast? ≠ some ' '

/-- A text that single quotes can carry: of the line ends it has the separators
    only, and no space beside one. -/
structure IsSingle (cs : List Char) : Prop where
  printable : ∀ c ∈ cs, isPrintable c = true
  noFeed : '\n' ∉ cs
  spaceBreak : adjacent (· == ' ') isBreak cs = false
  breakSpace : adjacent isBreak (· == ' ') cs = false

/-- A text that a literal block can carry: no line of it ends in a space. -/
structure IsBlock (cs : List Char) : Prop where
  printable : ∀ c ∈ cs, isPrintable c = true
  feed : '\n' ∈ cs
  spaceBreak : adjacent (· == ' ') isBreak cs = false
  ends : cs.getLast? ≠ some ' '

theorem not_any_special {cs : List Char} (h : cs.any (fun c => !isPrintable c) = false) :
    ∀ c ∈ cs, isPrintable c = true := by
  intro c hc
  rw [List.any_eq_false] at h
  simpa using h c hc

/-- What a text that begins a plain scalar is known not to contain. -/
theorem isPlain_of_shapeOf {first : Char} {rest : List Char}
    (h : (shapeOf (first :: rest)).plain = true) : IsPlain first rest := by
  simp only [shapeOf, hasMark, Bool.not_eq_true', Bool.or_eq_false_iff] at h
  obtain ⟨⟨⟨⟨⟨⟨hfirst, hlast⟩, -⟩, -⟩, hspecial⟩, hbreak⟩, ⟨⟨⟨hmark, happart⟩, hinner⟩, hdashes⟩, hpoints⟩ := h
  refine ⟨not_any_special hspecial, fun c hc => ?_, ⟨hmark, ?_⟩, fun hc => ?_, hinner, hdashes,
    hpoints, ?_⟩
  · rw [List.any_eq_false] at hbreak
    simpa using hbreak c hc
  · rintro rfl
    exact absurd hfirst (by simp)
  · rcases hc with rfl | rfl | rfl <;> simpa using happart
  · intro hend
    rw [hend] at hlast
    exact absurd hlast (by simp)

theorem isPlain_of_styleOf {s : String} (h : styleOf s = .plain) :
    ∃ first rest, s.toList = first :: rest ∧ IsPlain first rest ∧ meaning s = .text := by
  simp only [styleOf] at h
  split at h
  · split at h <;> cases h
  · split at h
    · rename_i hplain
      simp only [Bool.and_eq_true, beq_iff_eq] at hplain
      obtain ⟨⟨hshape, hmeaning⟩, -⟩ := hplain
      cases hs : s.toList with
      | nil =>
          rw [String.toList_eq_nil_iff] at hs
          subst hs
          exact absurd hmeaning (by decide)
      | cons first rest =>
          rw [hs] at hshape
          exact ⟨first, rest, rfl, isPlain_of_shapeOf hshape, hmeaning⟩
    · split at h <;> cases h

theorem isSingle_of_styleOf {s : String} (h : styleOf s = .singleQuoted) : IsSingle s.toList := by
  simp only [styleOf] at h
  split at h
  · split at h <;> cases h
  · rename_i hfeed
    split at h
    · cases h
    · split at h
      · rename_i hsingle
        simp only [shapeOf, Bool.not_eq_true', Bool.or_eq_false_iff] at hsingle
        exact ⟨not_any_special hsingle.2, by simpa using hfeed, hsingle.1.2, hsingle.1.1⟩
      · cases h

theorem isBlock_of_styleOf {s : String} (h : styleOf s = .literal) : IsBlock s.toList := by
  simp only [styleOf] at h
  split at h
  · rename_i hfeed
    split at h
    · rename_i hblock
      simp only [shapeOf, Bool.not_eq_true', Bool.or_eq_false_iff] at hblock
      exact ⟨not_any_special hblock.2, by simpa using hfeed, hblock.1.2, by simpa using hblock.1.1.2⟩
    · cases h
  · split at h
    · cases h
    · split at h <;> cases h

/-- No text is written folded. -/
theorem styleOf_ne_folded (s : String) : styleOf s ≠ .folded := by
  unfold styleOf
  dsimp only
  split
  · split <;> simp
  · split
    · simp
    · split <;> simp

-- ## Numbers

theorem toNat_lt_of_isNumberMark {c : Char} (h : isNumberMark c = true) : c.toNat < 128 := by
  simp only [isNumberMark, Bool.or_eq_true, beq_iff_eq] at h
  rcases h with ((h | rfl) | rfl) | rfl
  · delta Char.isAlphanum Char.isAlpha Char.isUpper Char.isLower Char.isDigit at h
    simp only [Bool.or_eq_true, Bool.and_eq_true, decide_eq_true_eq, ge_iff_le,
      UInt32.le_iff_toNat_le] at h
    have hval : c.val.toNat = c.toNat := rfl
    rw [← hval]
    rcases h with (⟨h, h'⟩ | ⟨h, h'⟩) | ⟨h, h'⟩ <;> simp at h h' <;> omega
  · decide
  · decide
  · decide

/-- A character that stands for itself: it needs no escape, is no gap and, a dash
    apart, announces nothing. -/
structure Unmarked (c : Char) : Prop where
  printable : isPrintable c = true
  notBreak : isBreak c = false
  notSpace : isSpace c = false
  notLeading : isLeadingMark c = false
  notColon : c ≠ ':'
  notComment : c ≠ '#'
  notQuestion : c ≠ '?'

theorem unmarked_of_isNumberMark {c : Char} (h : isNumberMark c = true) : Unmarked c := by
  have hall : ∀ n < 128, isNumberMark (Char.ofNat n) = true →
      isPrintable (Char.ofNat n) = true ∧ isBreak (Char.ofNat n) = false ∧
        isSpace (Char.ofNat n) = false ∧ isLeadingMark (Char.ofNat n) = false ∧
        Char.ofNat n ≠ ':' ∧ Char.ofNat n ≠ '#' ∧ Char.ofNat n ≠ '?' := by
    decide
  have hc := hall c.toNat (toNat_lt_of_isNumberMark h)
  rw [Char.ofNat_toNat] at hc
  obtain ⟨hprintable, hbreak, hspace, hleading, hcolon, hcomment, hquestion⟩ := hc h
  exact ⟨hprintable, hbreak, hspace, hleading, hcolon, hcomment, hquestion⟩

theorem innerMark_eq_false {cs : List Char} (h : ∀ c ∈ cs, c ≠ ':' ∧ c ≠ '#') (before : Char) :
    innerMark before cs = false := by
  induction cs generalizing before with
  | nil => rfl
  | cons c cs ih =>
      have hc := h c List.mem_cons_self
      simp [innerMark, hc.1, hc.2, ih (fun d hd => h d (List.mem_cons_of_mem _ hd))]

/-- Characters that are no marks can be plain, if a dash or a point in front is followed
    by another one. -/
theorem isPlain_of_unmarked {first : Char} {rest : List Char}
    (hmark : ∀ c ∈ first :: rest, Unmarked c)
    (hfirst : first = '-' ∨ first = '.' → ∃ c cs, rest = c :: cs ∧ c ≠ first) :
    IsPlain first rest := by
  have hhead := hmark first List.mem_cons_self
  refine ⟨fun c hc => (hmark c hc).printable, fun c hc => (hmark c hc).notBreak,
    ⟨hhead.notLeading, ?_⟩, ?_, ?_, ?_, ?_, ?_⟩
  · rintro rfl
    exact absurd hhead.notSpace (by decide)
  · rintro (heq | heq | heq)
    · exact absurd heq hhead.notQuestion
    · exact absurd heq hhead.notColon
    · obtain ⟨c, cs, rfl, -⟩ := hfirst (.inl heq)
      have hc := hmark c (by simp)
      simp [endsWord, isGap, hc.notBreak, hc.notSpace]
  · exact innerMark_eq_false (fun c hc => ⟨(hmark c (List.mem_cons_of_mem _ hc)).notColon,
      (hmark c (List.mem_cons_of_mem _ hc)).notComment⟩) first
  · by_cases heq : first = '-'
    · obtain ⟨c, cs, rfl, hne⟩ := hfirst (.inl heq)
      rw [heq] at hne
      simp [List.isPrefixOf, Ne.symm hne]
    · simp [List.isPrefixOf, Ne.symm heq]
  · by_cases heq : first = '.'
    · obtain ⟨c, cs, rfl, hne⟩ := hfirst (.inr heq)
      rw [heq] at hne
      simp [List.isPrefixOf, Ne.symm hne]
    · simp [List.isPrefixOf, Ne.symm heq]
  · intro hend
    exact absurd (hmark ' ' (List.mem_of_getLast? hend)).notSpace (by decide)

theorem isPlain_of_numberMarks {first : Char} {rest : List Char}
    (h : ∀ c ∈ first :: rest, isNumberMark c = true)
    (hfirst : first = '-' ∨ first = '.' → ∃ c cs, rest = c :: cs ∧ c ≠ first) :
    IsPlain first rest :=
  isPlain_of_unmarked (fun c hc => unmarked_of_isNumberMark (h c hc)) hfirst

theorem isPlain_intText (i : Int) :
    ∃ first rest, (toString i).toList = first :: rest ∧ IsPlain first rest := by
  have hmarks : ∀ c ∈ (toString i).toList, isNumberMark c = true := fun _ =>
    isNumberMark_of_mem_intText
  obtain ⟨c, cs, hds, hc⟩ := exists_text_eq i.natAbs
  have hne : c ≠ '-' ∧ c ≠ '.' := by
    refine ⟨?_, ?_⟩ <;>
      · rintro rfl
        exact absurd hc (by decide)
  rcases intText_cases i with ⟨-, htext⟩ | ⟨-, htext⟩
  · rw [htext, hds] at hmarks ⊢
    exact ⟨c, cs, rfl, isPlain_of_numberMarks hmarks fun h =>
      h.elim (fun h => absurd h hne.1) (fun h => absurd h hne.2)⟩
  · rw [htext, hds] at hmarks ⊢
    exact ⟨'-', c :: cs, rfl, isPlain_of_numberMarks hmarks fun _ => ⟨c, cs, rfl, hne.1⟩⟩

theorem isPlain_floatText (x : Binary64) :
    ∃ first rest, (floatText x).toList = first :: rest ∧ IsPlain first rest := by
  cases x with
  | finite negative a =>
      have hmarks : ∀ c ∈ (floatText (.finite negative a)).toList, isNumberMark c = true := fun _ =>
        FloatLayout.isNumberMark_of_mem_signedText
      obtain ⟨c, cs, htext, hc⟩ := layout.exists_magnitudeText_eq a
      have hne : c ≠ '-' ∧ c ≠ '.' := by
        refine ⟨?_, ?_⟩ <;>
          · rintro rfl
            exact absurd hc (by decide)
      rw [floatText_eq, String.toList_ofList, htext] at hmarks ⊢
      cases negative with
      | false =>
          exact ⟨c, cs, rfl, isPlain_of_numberMarks hmarks fun h =>
            h.elim (fun h => absurd h hne.1) (fun h => absurd h hne.2)⟩
      | true => exact ⟨'-', c :: cs, rfl, isPlain_of_numberMarks hmarks fun _ => ⟨c, cs, rfl, hne.1⟩⟩
  | infinite negative =>
      cases negative with
      | false =>
          exact ⟨'.', ['i', 'n', 'f'], rfl, isPlain_of_numberMarks
            (List.all_eq_true.mp (by decide)) fun _ => ⟨'i', ['n', 'f'], rfl, by decide⟩⟩
      | true =>
          exact ⟨'-', ['.', 'i', 'n', 'f'], rfl, isPlain_of_numberMarks
            (List.all_eq_true.mp (by decide)) fun _ => ⟨'.', ['i', 'n', 'f'], rfl, by decide⟩⟩
  | nan =>
      exact ⟨'.', ['n', 'a', 'n'], rfl, isPlain_of_numberMarks
        (List.all_eq_true.mp (by decide)) fun _ => ⟨'n', ['a', 'n'], rfl, by decide⟩⟩

end Yaml

end SimStudio
