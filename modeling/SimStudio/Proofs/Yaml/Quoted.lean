import SimStudio.Proofs.Yaml.Lines

/-!
# Quoted Scalars Read Back

A text between quotes is read back whatever stands behind the closing quote,
except for another single quote behind a single one.

In single quotes the line separators stand as they are, and a line behind one
is indented. The reader drops the indentation again because no space may follow
a separator in such a text. In double quotes every line end is escaped, so the
scalar stays on its line.

## Main definitions

* `Yaml.Escape`: The ways in which a character can stand in double quotes.
* `Yaml.Pending`: What the reader of single quotes holds back.
* `Yaml.StandsBefore`: Where it may stand before a text.
* `Yaml.ReadsSingle`: It reads a text up to the closing quote.

## Theorems

* `Yaml.readsSingle`: It reads whatever text can stand in single quotes, by induction.
* `Yaml.scanSingle_body`: A text in single quotes reads as itself.
* `Yaml.scanDouble_body`: A text in double quotes reads as itself.
* `Yaml.length_doubleEscaped_le`: Four characters for each byte are enough.
-/

namespace SimStudio

namespace Yaml

-- ## Double Quotes

/-- The ways in which a character can stand in double quotes. -/
inductive Escape (c : Char) : List Char → Prop
  | plain (hbreak : isBreak c = false) (hquote : c ≠ '"') (hbackslash : c ≠ '\\') : Escape c [c]
  | letter {e : Char} (he : escape? e = some c) (hbreak : isBreak e = false)
      (hwidth : hexWidth? e = none) : Escape c ['\\', e]
  | code {e : Char} {width : Nat} (hwidth : hexWidth? e = some width) (hbreak : isBreak e = false)
      (hpos : 0 < width) (hcode : c.toNat < 16 ^ width) :
      Escape c ('\\' :: e :: Digits.padded 16 width true c.toNat)

theorem utf8Size_cases (c : Char) : (c.toNat ≤ 0xFF → 1 ≤ c.utf8Size) ∧
    (0xFF < c.toNat → 2 ≤ c.utf8Size) ∧ (0xFFFF < c.toNat → 4 ≤ c.utf8Size) := by
  have hval : c.val.toNat = c.toNat := rfl
  simp only [Char.utf8Size, UInt32.le_iff_toNat_le, UInt32.toNat_ofNatLT, hval]
  split
  · omega
  · split
    · omega
    · split <;> omega

theorem toNat_lt (c : Char) : c.toNat < 0x110000 := by
  rcases c.valid with h | h
  · exact Nat.lt_trans h (by decide)
  · exact h.2

theorem escape_doubleEscaped (c : Char) : Escape c (doubleEscaped c) := by
  have hlt := toNat_lt c
  unfold doubleEscaped
  split
  · rename_i h
    simp only [Bool.and_eq_true, Bool.not_eq_true', decide_eq_true_eq, ne_eq] at h
    exact .plain h.1.1.2 h.1.2 h.2
  · split
    all_goals first
      | exact .letter rfl (by decide) rfl
      | skip
    dsimp only
    split
    · exact .code rfl (by decide) (by omega) (by omega)
    · split
      · exact .code rfl (by decide) (by omega) (by omega)
      · exact .code rfl (by decide) (by omega) (by omega)

/-- A character that stands in double quotes as it is is printable. -/
theorem isPrintable_of_doubleEscaped {c : Char} (h : doubleEscaped c = [c]) :
    isPrintable c = true := by
  unfold doubleEscaped at h
  split at h
  · rename_i hplain
    simp only [Bool.and_eq_true] at hplain
    exact hplain.1.1.1
  · rw [← (List.cons.inj h).1]
    decide

theorem charOfCode?_toNat (c : Char) : charOfCode? c.toNat = some c := by
  have hvalid : c.toNat.isValidChar := c.valid
  rw [charOfCode?, dif_pos hvalid]
  rfl

theorem scanDouble_digits {ds : List Char} {left code : Nat} {c : Char} (hne : ds ≠ [])
    (hleft : ds.length = left) (hread : Digits.readOn 16 code ds = some c.toNat) (rest : List Char)
    (pos : Position) (gap : Gap) (acc : List Char) :
    scanDouble (ds ++ rest) pos (.digits left code) gap acc =
      scanDouble rest (pos.advance ds.length) .content .none (c :: (gap.text ++ acc)) := by
  induction ds generalizing left code pos with
  | nil => exact absurd rfl hne
  | cons d ds ih =>
      rw [Digits.readOn] at hread
      rw [List.cons_append, scanDouble]
      cases hd : Digits.digit? d with
      | none =>
          rw [hd] at hread
          cases hread
      | some n =>
          rw [hd] at hread
          dsimp only at hread ⊢
          split at hread
          · rename_i hn
            rw [if_pos hn]
            -- Only with the last digit does the number become a character.
            cases ds with
            | nil =>
                rw [List.length_singleton] at hleft
                rw [if_pos (by omega), Option.some.inj hread, charOfCode?_toNat]
                rfl
            | cons d' ds =>
                rw [List.length_cons, List.length_cons] at hleft
                rw [if_neg (by omega), ih (by simp) (by rw [List.length_cons]; omega) hread]
                simp [Nat.add_comm, Nat.add_left_comm]
          · cases hread

theorem scanDouble_cons {c : Char} (hc : c ≠ '\r') (cs : List Char) (pos : Position) (gap : Gap)
    (acc : List Char) :
    scanDouble (c :: cs) pos .content gap acc =
      if isBreak c then scanDouble cs pos.newLine .content (gap.addBreak (normalBreak c)) acc
      else if isSpace c then scanDouble cs pos.advance .content (gap.addBlank c) acc
      else if pos.column = 0 && atDocumentMark (c :: cs) then none
      else if c = '"' then some (String.ofList (gap.text ++ acc).reverse, ⟨cs, pos.advance⟩)
      else if c = '\\' then scanDouble cs pos.advance .escape gap acc
      else scanDouble cs pos.advance .content .none (c :: (gap.text ++ acc)) := by
  rw [scanDouble]
  exact fun _ h => absurd h hc

/-- A character that stands in double quotes is read, in whatever way it
    stands there. Only the space may be held back. -/
theorem scanDouble_escape {c : Char} {code : List Char} (h : Escape c code) (rest : List Char)
    {pos : Position} (hpos : 0 < pos.column) (held acc : List Char) :
    ∃ held' acc', held' ++ acc' = c :: (held ++ acc) ∧
      scanDouble (code ++ rest) pos .content (.blanks held) acc =
        scanDouble rest (pos.advance code.length) .content (.blanks held') acc' := by
  have hcolumn : pos.column ≠ 0 := Nat.ne_of_gt hpos
  -- What does not stand there itself begins with a backslash, which moves no blank.
  have hbackslash : ∀ cs, scanDouble ('\\' :: cs) pos .content (.blanks held) acc =
      scanDouble cs pos.advance .escape (.blanks held) acc := by
    intro cs
    rw [scanDouble_cons (by decide)]
    simp [hcolumn, show isBreak '\\' = false by decide, show isSpace '\\' = false by decide]
  cases h with
  | plain hbreak hquote hslash =>
      have hreturn : c ≠ '\r' := by
        rintro rfl
        exact absurd hbreak (by decide)
      rw [List.singleton_append, scanDouble_cons hreturn]
      by_cases hspace : isSpace c = true
      · exact ⟨c :: held, acc, rfl, by simp [hbreak, hspace, Gap.addBlank]⟩
      · exact ⟨[], c :: (held ++ acc), rfl, by
          simp [hbreak, hspace, hcolumn, hquote, hslash, Gap.none, Gap.text]⟩
  | letter he hbreak hwidth =>
      rename_i e
      have hreturn : e ≠ '\r' := by
        rintro rfl
        exact absurd hbreak (by decide)
      refine ⟨[], c :: (held ++ acc), rfl, ?_⟩
      rw [List.cons_append, List.singleton_append, hbackslash, scanDouble]
      · simp [hbreak, hwidth, he, Gap.none, Gap.text]
      · exact fun _ h => absurd h hreturn
  | code hwidth hbreak hwidthPos hcode =>
      rename_i e width
      have hreturn : e ≠ '\r' := by
        rintro rfl
        exact absurd hbreak (by decide)
      have hlength := Digits.length_padded 16 width true c.toNat (by omega) hwidthPos hcode
      have hread : Digits.readOn 16 0 (Digits.padded 16 width true c.toNat) = some c.toNat := by
        have hvalue := Digits.value?_padded 16 width true c.toNat (by omega) (by omega)
        rwa [Digits.value?, List.isEmpty_eq_false_iff.mpr (Digits.padded_ne_nil _ _ _ _),
          if_neg Bool.false_ne_true] at hvalue
      refine ⟨[], c :: (held ++ acc), rfl, ?_⟩
      rw [List.cons_append, List.cons_append, hbackslash, scanDouble]
      · simp only [hbreak, Bool.false_eq_true, if_false, hwidth]
        rw [scanDouble_digits (Digits.padded_ne_nil _ _ _ _) hlength hread]
        simp [hlength, Gap.none, Gap.text, Nat.add_comm, Nat.add_left_comm]
      · exact fun _ h => absurd h hreturn

/-- A text in double quotes reads as itself, on one line, however its characters
    stand there. -/
theorem scanDouble_body {code : Char → List Char} {cs : List Char}
    (hcode : ∀ c ∈ cs, Escape c (code c)) (rest : List Char) {pos : Position}
    (hpos : 0 < pos.column) (held acc : List Char) :
    scanDouble (cs.flatMap code ++ '"' :: rest) pos .content (.blanks held) acc =
      some (String.ofList ((held ++ acc).reverse ++ cs),
        ⟨rest, pos.advance ((cs.flatMap code).length + 1)⟩) := by
  induction cs generalizing pos held acc with
  | nil =>
      have hcolumn : pos.column ≠ 0 := Nat.ne_of_gt hpos
      rw [List.flatMap_nil, List.nil_append, scanDouble_cons (by decide)]
      simp [hcolumn, show isBreak '"' = false by decide, show isSpace '"' = false by decide, Gap.text]
  | cons c cs ih =>
      obtain ⟨held', acc', htext, hread⟩ := scanDouble_escape (hcode c List.mem_cons_self)
        (cs.flatMap code ++ '"' :: rest) hpos held acc
      have hpos' : 0 < (pos.advance (code c).length).column := by
        rw [Position.advance_column]
        omega
      rw [List.flatMap_cons, List.append_assoc, hread,
        ih (fun d hd => hcode d (List.mem_cons_of_mem _ hd)) hpos', htext]
      simp [Nat.add_assoc]

theorem length_doubleEscapedChar_le (c : Char) : (doubleEscaped c).length ≤ 4 * c.utf8Size := by
  obtain ⟨hone, htwo, hfour⟩ := utf8Size_cases c
  have hlt := toNat_lt c
  have hpos := c.utf8Size_pos
  have hpadded : ∀ width, 0 < width → c.toNat < 16 ^ width →
      (Digits.padded 16 width true c.toNat).length = width := fun width hwidth hcode =>
    Digits.length_padded 16 width true c.toNat (by omega) hwidth hcode
  unfold doubleEscaped
  split
  · rw [List.length_singleton]
    omega
  · split
    all_goals try
      · simp only [List.length_cons, List.length_nil]
        omega
    dsimp only
    split
    · rw [List.length_cons, List.length_cons, hpadded 2 (by omega) (by omega)]
      omega
    · split
      · rw [List.length_cons, List.length_cons, hpadded 4 (by omega) (by omega)]
        omega
      · rw [List.length_cons, List.length_cons, hpadded 8 (by omega) (by omega)]
        omega

theorem utf8ByteSize_ofList_cons (c : Char) (cs : List Char) :
    (String.ofList (c :: cs)).utf8ByteSize = c.utf8Size + (String.ofList cs).utf8ByteSize := by
  rw [String.ofList_cons, String.utf8ByteSize_append, String.utf8ByteSize_singleton]

/-- Four characters for each byte of a text are enough in double quotes. -/
theorem length_doubleEscaped_le (cs : List Char) :
    (cs.flatMap doubleEscaped).length ≤ 4 * (String.ofList cs).utf8ByteSize := by
  induction cs with
  | nil => simp
  | cons c cs ih =>
      have hc := length_doubleEscapedChar_le c
      rw [List.flatMap_cons, List.length_append, utf8ByteSize_ofList_cons]
      omega

-- ## Single Quotes

theorem scanSingle_cons {c : Char} {cs : List Char} (hc : c ≠ '\r')
    (hquote : c = '\'' → cs.head? ≠ some '\'') (pos : Position) (gap : Gap) (acc : List Char) :
    scanSingle (c :: cs) pos gap acc =
      if isBreak c then scanSingle cs pos.newLine (gap.addBreak (normalBreak c)) acc
      else if isSpace c then scanSingle cs pos.advance (gap.addBlank c) acc
      else if pos.column = 0 && atDocumentMark (c :: cs) then none
      else if c = '\'' then some (String.ofList (gap.text ++ acc).reverse, ⟨cs, pos.advance⟩)
      else scanSingle cs pos.advance .none (c :: (gap.text ++ acc)) := by
  rw [scanSingle]
  · exact fun _ h => absurd h hc
  · rintro rest rfl rfl
    exact hquote rfl rfl

theorem scanSingle_spaces (n : Nat) (rest : List Char) (pos : Position) (first : Option Char)
    (later acc : List Char) :
    scanSingle (spaces n ++ rest) pos (.lines first later) acc =
      scanSingle rest (pos.advance n) (.lines first later) acc := by
  induction n generalizing pos with
  | zero => rfl
  | succ n ih =>
      rw [spaces_succ, List.cons_append, scanSingle_cons (by decide) (fun h => absurd h (by decide)),
        if_neg (by decide), if_pos (by decide)]
      rw [show Gap.addBlank ' ' (.lines first later) = .lines first later from rfl, ih]
      simp [Nat.add_comm]

/-- A character of a line of a text in single quotes. -/
def singleChar (c : Char) : List Char := if c = '\'' then ['\'', '\''] else [c]

theorem scanSingle_char {c : Char} (hprintable : isPrintable c = true) (hbreak : isBreak c = false)
    (hspace : c ≠ ' ') (rest : List Char) {pos : Position} (hpos : 0 < pos.column) (gap : Gap)
    (acc : List Char) :
    scanSingle (singleChar c ++ rest) pos gap acc =
      scanSingle rest (pos.advance (singleChar c).length) .none (c :: (gap.text ++ acc)) := by
  have hcolumn : pos.column ≠ 0 := Nat.ne_of_gt hpos
  have hspace' : isSpace c = false := by
    rw [← Bool.not_eq_true, isSpace_iff hprintable]
    exact hspace
  unfold singleChar
  by_cases hquote : c = '\''
  · subst hquote
    rfl
  · rw [if_neg hquote, List.singleton_append,
      scanSingle_cons (ne_return_of_isPrintable hprintable) (fun h => absurd h hquote)]
    simp [hbreak, hspace', hcolumn, hquote]

/-- What the reader of single quotes holds back: blanks within a line, or line
    separators once a line has ended. -/
inductive Pending : (newLine : Bool) → Gap → Prop
  | blanks (held : List Char) : Pending false (.blanks held)
  | lines {b : Char} (hb : b ≠ '\n') (later : List Char) : Pending true (.lines (some b) later)

theorem Pending.addBreak {newLine : Bool} {gap : Gap} (h : Pending newLine gap) {c : Char}
    (hc : c = '\u2028' ∨ c = '\u2029') (hblank : newLine = false → gap = .none) :
    Pending true (gap.addBreak (normalBreak c)) ∧
      (gap.addBreak (normalBreak c)).text = c :: gap.text := by
  have hnormal : normalBreak c = c ∧ c ≠ '\n' := by
    rcases hc with rfl | rfl <;> decide
  rw [hnormal.1]
  cases h with
  | blanks held =>
      rw [hblank rfl]
      refine ⟨.lines hnormal.2 [], ?_⟩
      rcases hc with rfl | rfl <;> rfl
  | lines hb later =>
      rename_i b
      refine ⟨.lines hb (c :: later), ?_⟩
      have htext : ∀ later, Gap.text (.lines (some b) later) = later ++ [b] := by
        intro later
        cases later <;> simp [Gap.text, hb]
      rw [show Gap.addBreak c (.lines (some b) later) = .lines (some b) (c :: later) from rfl, htext,
        htext, List.cons_append]

/-- Where a line of the scalar begins, its indentation is skipped. -/
theorem scanSingle_margin {newLine : Bool} {gap : Gap} (h : Pending newLine gap) (indent : Nat)
    (rest : List Char) (pos : Position) (acc : List Char) :
    scanSingle ((if newLine then spaces indent else []) ++ rest) pos gap acc =
      scanSingle rest (pos.advance (if newLine then indent else 0)) gap acc := by
  cases h with
  | blanks held => rfl
  | lines hb later => exact scanSingle_spaces indent rest pos _ later acc

theorem adjacent_cons {p q : Char → Bool} {c : Char} {cs : List Char}
    (h : adjacent p q (c :: cs) = false) :
    adjacent p q cs = false ∧ ∀ d ∈ cs.head?, p c = true → q d = false := by
  cases cs with
  | nil => exact ⟨rfl, fun d hd => absurd hd (by simp)⟩
  | cons d cs =>
      rw [adjacent, Bool.or_eq_false_iff] at h
      refine ⟨h.2, fun e he hp => ?_⟩
      rw [← Option.some.inj he]
      rw [hp, Bool.true_and] at h
      exact h.1

theorem IsSingle.tail {c : Char} {cs : List Char} (h : IsSingle (c :: cs)) : IsSingle cs where
  printable := fun d hd => h.printable d (List.mem_cons_of_mem _ hd)
  noFeed := fun hmem => h.noFeed (List.mem_cons_of_mem _ hmem)
  spaceBreak := (adjacent_cons h.spaceBreak).1
  breakSpace := (adjacent_cons h.breakSpace).1

/-- Where the reader of single quotes may stand before a text, with what it holds back: no
    blank comes before a separator, and none behind one. -/
structure StandsBefore (newLine : Bool) (gap : Gap) (pos : Position) (cs : List Char) : Prop where
  pending : Pending newLine gap
  column : newLine = false → 0 < pos.column
  beforeBreak : ∀ c ∈ cs.head?, isBreak c = true → newLine = false → gap = .none
  behindBreak : newLine = true → cs.head? ≠ some ' '

/-- A text is read up to its closing quote, behind what has been read before. Without
    separators in it, it stays on its line. -/
def ReadsSingle (indent : Nat) (rest cs : List Char) (newLine : Bool) (gap : Gap)
    (acc : List Char) (pos : Position) : Prop :=
  ∃ pos', scanSingle (singleBody indent cs newLine ++ rest) pos gap acc =
      some (String.ofList ((gap.text ++ acc).reverse ++ cs), ⟨rest, pos'⟩) ∧
    pos.line ≤ pos'.line ∧
    (newLine = false → (∀ c ∈ cs, isBreak c = false) →
      pos' = pos.advance (singleBody indent cs newLine).length)

section

variable {indent : Nat} {rest cs : List Char} {newLine : Bool} {gap : Gap} {acc : List Char}
  {pos : Position} {c : Char}

theorem singleBody_cons (indent : Nat) {c : Char} (hbreak : isBreak c = false) (cs : List Char)
    (newLine : Bool) : singleBody indent (c :: cs) newLine =
      (if newLine then spaces indent else []) ++ (singleChar c ++ singleBody indent cs false) := by
  rw [singleBody, hbreak]
  rfl

/-- Behind the margin the reader is not at the beginning of a line. -/
theorem StandsBefore.column_margin (h : StandsBefore newLine gap pos cs) (hindent : 0 < indent) :
    0 < (pos.advance (if newLine then indent else 0)).column := by
  rw [Position.advance_column]
  cases newLine with
  | false => exact h.column rfl
  | true =>
      rw [if_pos rfl]
      omega

theorem readsSingle_nil (hindent : 0 < indent) (hrest : rest.head? ≠ some '\'')
    (h : StandsBefore newLine gap pos []) (acc : List Char) :
    ReadsSingle indent rest [] newLine gap acc pos := by
  refine ⟨(pos.advance (if newLine then indent else 0)).advance, ?_, Nat.le_refl _, ?_⟩
  · have hcolumn := Nat.ne_of_gt (h.column_margin hindent)
    rw [singleBody, List.append_assoc, scanSingle_margin h.pending, List.singleton_append,
      scanSingle_cons (by decide) (fun _ => hrest), if_neg (by decide), if_neg (by decide),
      if_neg (by simp only [hcolumn, decide_false, Bool.false_and]; decide), if_pos rfl,
      List.append_nil]
  · rintro rfl -
    rfl

/-- A separator ends the line and is held back. -/
theorem readsSingle_break (hc : IsSingle (c :: cs)) (h : StandsBefore newLine gap pos (c :: cs))
    (hbreak : isBreak c = true)
    (hbehind : ∀ gap pos, StandsBefore true gap pos cs →
      ReadsSingle indent rest cs true gap acc pos) :
    ReadsSingle indent rest (c :: cs) newLine gap acc pos := by
  have hprintable := hc.printable c List.mem_cons_self
  have hseparator : c = '\u2028' ∨ c = '\u2029' := (break_cases hbreak hprintable).resolve_left
    fun h => hc.noFeed (h ▸ List.mem_cons_self)
  have hquote : c ≠ '\'' := by
    rcases hseparator with rfl | rfl <;> decide
  obtain ⟨hpending, htext⟩ := h.pending.addBreak hseparator (h.beforeBreak c rfl hbreak)
  obtain ⟨pos', hread, hline, -⟩ := hbehind (gap.addBreak (normalBreak c)) pos.newLine
    ⟨hpending, nofun, fun _ _ _ => nofun,
      fun _ h => by simpa using (adjacent_cons hc.breakSpace).2 ' ' h hbreak⟩
  refine ⟨pos', ?_, Nat.le_of_succ_le hline, fun _ hall => ?_⟩
  · rw [singleBody, if_pos hbreak, List.cons_append,
      scanSingle_cons (ne_return_of_isPrintable hprintable) (fun h => absurd h hquote),
      if_pos hbreak, hread, htext]
    simp
  · rw [hall c List.mem_cons_self] at hbreak
    exact Bool.noConfusion hbreak

/-- A space within a line is held back. -/
theorem readsSingle_space (hc : IsSingle (' ' :: cs)) (h : StandsBefore newLine gap pos (' ' :: cs))
    (hbehind : ∀ gap pos, StandsBefore false gap pos cs →
      ReadsSingle indent rest cs false gap acc pos) :
    ReadsSingle indent rest (' ' :: cs) newLine gap acc pos := by
  cases h.pending with
  | lines hb later => exact absurd rfl (h.behindBreak rfl)
  | blanks held =>
      obtain ⟨pos', hread, hline, hplace⟩ := hbehind (.blanks (' ' :: held)) pos.advance
        ⟨.blanks _, fun _ => Nat.succ_pos _, fun d hd hbreak => by
          simp [(adjacent_cons hc.spaceBreak).2 d hd rfl] at hbreak, nofun⟩
      have hbody := singleBody_cons indent (show isBreak ' ' = false by decide) cs false
      refine ⟨pos', ?_, hline, fun _ hall => ?_⟩
      · rw [hbody, List.append_assoc, scanSingle_margin (.blanks held), List.append_assoc,
          show singleChar ' ' = [' '] from rfl, List.singleton_append,
          scanSingle_cons (by decide) (fun h => absurd h (by decide)), if_neg (by decide),
          if_pos (by decide)]
        refine hread.trans ?_
        simp [Gap.text]
      · rw [hplace rfl fun d hd => hall d (List.mem_cons_of_mem _ hd), hbody]
        simp [singleChar, Nat.add_comm]

/-- Any other character is read, and what has been held back before it. -/
theorem readsSingle_char (hindent : 0 < indent) (hc : IsSingle (c :: cs))
    (h : StandsBefore newLine gap pos (c :: cs)) (hbreak : isBreak c = false) (hspace : c ≠ ' ')
    (hbehind : ∀ acc pos, StandsBefore false .none pos cs →
      ReadsSingle indent rest cs false .none acc pos) :
    ReadsSingle indent rest (c :: cs) newLine gap acc pos := by
  have hcolumn := h.column_margin hindent
  have hbody := singleBody_cons indent hbreak cs newLine
  obtain ⟨pos', hread, hline, hplace⟩ := hbehind (c :: (gap.text ++ acc))
    ((pos.advance (if newLine then indent else 0)).advance (singleChar c).length)
    ⟨.blanks [], fun _ => Nat.lt_of_lt_of_le hcolumn (Nat.le_add_right _ _), fun _ _ _ _ => rfl,
      nofun⟩
  refine ⟨pos', ?_, hline, ?_⟩
  · rw [hbody, List.append_assoc, scanSingle_margin h.pending, List.append_assoc,
      scanSingle_char (hc.printable c List.mem_cons_self) hbreak hspace _ hcolumn]
    refine hread.trans ?_
    simp [Gap.none, Gap.text]
  · rintro rfl hall
    rw [hplace rfl fun d hd => hall d (List.mem_cons_of_mem _ hd), hbody]
    simp

-- Induction on the text. What is held back has been read and is part of the
-- scalar, so that `gap.text ++ acc` is always all that came before.
theorem readsSingle (hindent : 0 < indent) (hrest : rest.head? ≠ some '\'') (hcs : IsSingle cs)
    (h : StandsBefore newLine gap pos cs) : ReadsSingle indent rest cs newLine gap acc pos := by
  induction cs generalizing newLine gap acc pos with
  | nil => exact readsSingle_nil hindent hrest h acc
  | cons c cs ih =>
      by_cases hbreak : isBreak c = true
      · exact readsSingle_break hcs h hbreak fun _ _ => ih hcs.tail
      · rw [Bool.not_eq_true] at hbreak
        by_cases hspace : c = ' '
        · subst hspace
          exact readsSingle_space hcs h fun _ _ => ih hcs.tail
        · exact readsSingle_char hindent hcs h hbreak hspace fun _ _ => ih hcs.tail

/-- A text in single quotes reads as itself. Without separators in it, it stays on
    its line. -/
theorem scanSingle_body (hindent : 0 < indent) (hrest : rest.head? ≠ some '\'')
    (h : IsSingle cs) (hpos : 0 < pos.column) :
    ∃ pos', scanSingle (singleBody indent cs false ++ rest) pos .none [] =
        some (String.ofList cs, ⟨rest, pos'⟩) ∧ pos.line ≤ pos'.line ∧
      ((∀ c ∈ cs, isBreak c = false) → pos' = pos.advance (singleBody indent cs false).length) := by
  have hreads : ReadsSingle indent rest cs false .none [] pos :=
    readsSingle hindent hrest h ⟨.blanks [], fun _ => hpos, fun _ _ _ _ => rfl, nofun⟩
  obtain ⟨pos', hread, hline, hplace⟩ := hreads
  exact ⟨pos', hread, hline, hplace rfl⟩

end

/-- In single quotes at most the quotes are written twice. -/
theorem length_singleBody_le (indent : Nat) {cs : List Char} (h : ∀ c ∈ cs, isBreak c = false) :
    (singleBody indent cs false).length ≤ 2 * cs.length + 1 := by
  induction cs with
  | nil => exact Nat.le_refl _
  | cons c cs ih =>
      have hc := h c List.mem_cons_self
      have hrest := ih fun d hd => h d (List.mem_cons_of_mem _ hd)
      rw [singleBody, hc, if_neg Bool.false_ne_true, if_neg Bool.false_ne_true, List.nil_append,
        List.length_append, List.length_cons]
      split <;> simp <;> omega

theorem length_le_utf8ByteSize (cs : List Char) : cs.length ≤ (String.ofList cs).utf8ByteSize := by
  induction cs with
  | nil => exact Nat.zero_le _
  | cons c cs ih =>
      have hpos := c.utf8Size_pos
      rw [List.length_cons, utf8ByteSize_ofList_cons]
      omega

end Yaml

end SimStudio
