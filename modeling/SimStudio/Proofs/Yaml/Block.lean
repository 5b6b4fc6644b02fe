import SimStudio.Proofs.Yaml.Lines

/-!
# Literal Blocks Read Back

A text that is written as a literal block reads as itself.

The reader keeps apart the text up to the last line end, that line end, and the
line ends of blank lines behind it, because it learns only at the end which of
them belong to the scalar. Together they are always what has been written so far
(`BlockText.all`), and the header was chosen so that the right part of them is
kept.

## Main definitions

* `Yaml.BlockText.all`: All that has been read, in reverse.
* `Yaml.BlockText.Between`: What holds between two lines.

## Theorems

* `Yaml.scanBlockLines_body`: The lines of a block are read to its end.
* `Yaml.scanBlock_text`: A literal block reads as its text.
-/

namespace SimStudio

namespace Yaml

namespace BlockText

/-- All that has been read, in reverse. -/
def all (t : BlockText) : List Char := t.blankLines ++ (t.lastBreak.toList ++ t.text)

/-- What holds between two lines: what is held back consists of line ends, and
    nothing comes before the first line but blank lines. -/
structure Between (t : BlockText) : Prop where
  blank : ∀ c ∈ t.blankLines, isBreak c = true
  last : ∀ c ∈ t.lastBreak, isBreak c = true
  begun : t.lastBreak = none → t.text = []

/-- What holds within a line: nothing is held back. -/
structure Within (t : BlockText) : Prop where
  blank : t.blankLines = []
  last : t.lastBreak = none

theorem Within.all_eq {t : BlockText} (h : t.Within) : t.all = t.text := by
  rw [all, h.blank, h.last]
  rfl

/-- A single line end behind a word is not that of a blank line. -/
theorem Between.blankLines_eq_nil {t : BlockText} (h : t.Between) {b c : Char} {rest : List Char}
    (hall : t.all = b :: c :: rest) (hc : isBreak c = false) : t.blankLines = [] := by
  cases hblank : t.blankLines with
  | nil => rfl
  | cons x blank =>
      exfalso
      have hsecond : isBreak c = true := by
        rw [all, hblank, List.cons_append] at hall
        have htail := (List.cons.inj hall).2
        cases blank with
        | cons y blank =>
            rw [← (List.cons.inj htail).1]
            exact h.blank y (by simp [hblank])
        | nil =>
            cases hlast : t.lastBreak with
            | none =>
                rw [hlast, h.begun hlast] at htail
                cases htail
            | some l =>
                rw [hlast] at htail
                rw [← (List.cons.inj htail).1]
                exact h.last l (Option.mem_def.mpr hlast)
      rw [hc] at hsecond
      cases hsecond

end BlockText

section

variable {indent : Nat} {rest : List Char}

theorem scanBlockLines_between {c : Char} (hc : c ≠ '\r') (cs : List Char) (pos : Position)
    (t : BlockText) :
    scanBlockLines true indent (c :: cs) pos false t =
      if c = ' ' ∧ pos.column < indent then
        scanBlockLines true indent cs pos.advance false t
      else if c = '\t' ∧ pos.column < indent then none
      else if isBreak c then
        scanBlockLines true indent cs pos.newLine false
          { t with blankLines := normalBreak c :: t.blankLines }
      else if pos.column = indent then
        let t := t.beginLine true c
        scanBlockLines true indent cs pos.advance true { t with text := c :: t.text }
      else some (t, ⟨c :: cs, pos⟩) := by
  rw [scanBlockLines]
  exact fun _ h => absurd h hc

theorem scanBlockLines_within {c : Char} (hc : c ≠ '\r') (cs : List Char) (pos : Position)
    (t : BlockText) :
    scanBlockLines true indent (c :: cs) pos true t =
      if isBreak c then
        scanBlockLines true indent cs pos.newLine false
          { t with lastBreak := some (normalBreak c) }
      else scanBlockLines true indent cs pos.advance true { t with text := c :: t.text } := by
  rw [scanBlockLines]
  exact fun _ h => absurd h hc

/-- The indentation of a line is skipped, as far as it goes. -/
theorem scanBlockLines_spaces {k : Nat} {pos : Position} (h : pos.column + k ≤ indent)
    (t : BlockText) : scanBlockLines true indent (spaces k ++ rest) pos false t =
      scanBlockLines true indent rest (pos.advance k) false t := by
  induction k generalizing pos with
  | zero => rfl
  | succ k ih =>
      have hcolumn : pos.column < indent := by omega
      have hnext : pos.advance.column + k ≤ indent := by
        rw [Position.advance_column]
        omega
      rw [spaces_succ, List.cons_append, scanBlockLines_between (by decide),
        if_pos ⟨rfl, hcolumn⟩, ih hnext, Position.advance_advance, Nat.add_comm]

/-- A block ends before a line that is not indented as deeply. -/
theorem scanBlockLines_follows (h : Follows (indent - 1) rest) {pos : Position}
    (hpos : pos.column = 0) (t : BlockText) :
    scanBlockLines true indent rest pos false t =
      some (t, (Scan.toLexeme false rest pos false true).1) := by
  cases h with
  | nothing => rfl
  | line hk hc =>
      obtain ⟨hspace, htab, hreturn⟩ := ne_of_startsLexeme hc
      obtain ⟨-, hbreak, -, -⟩ := not_gap_of_startsLexeme hc
      rw [scanBlockLines_spaces (by omega), toLexeme_spaces, toLexeme_start hc,
        scanBlockLines_between hreturn, if_neg (fun h => hspace h.1), if_neg (fun h => htab h.1),
        if_neg (by simp [hbreak]), if_neg (by rw [Position.advance_column]; omega)]

/-- A character that reads as itself, also where it ends a line. -/
def Lasts (c : Char) : Prop := isBreak c = true → normalBreak c = c

theorem lasts_of_isPrintable {c : Char} (h : isPrintable c = true) : Lasts c := by
  intro hbreak
  rcases break_cases hbreak h with rfl | rfl | rfl <;> decide

theorem Lasts.ne_return {c : Char} (h : Lasts c) : c ≠ '\r' := by
  rintro rfl
  exact absurd (h (by decide)) (by decide)

/-- The line end that is written behind a text whose last line is still open. -/
def finalBreak : List Char → (newLine : Bool) → List Char
  | [], newLine => if newLine then [] else ['\n']
  | c :: cs, _ => finalBreak cs (isBreak c)

theorem finalBreak_concat (cs : List Char) (c : Char) (newLine : Bool) :
    finalBreak (cs ++ [c]) newLine = if isBreak c then [] else ['\n'] := by
  induction cs generalizing newLine with
  | nil => rfl
  | cons d cs ih => exact ih (isBreak d)

/-- A character of a line begins it or goes on with it. -/
theorem scanBlockLines_char (indent : Nat) {c : Char} (hlasts : Lasts c)
    (hbreak : isBreak c = false) (newLine : Bool) {pos : Position} {t : BlockText}
    (hbetween : newLine = true → pos.column = 0) (hwithin : newLine = false → t.Within)
    (r : List Char) :
    ∃ pos' t', scanBlockLines true indent ((if newLine then spaces indent else []) ++ c :: r) pos
        (!newLine) t = scanBlockLines true indent r pos' true t' ∧
      t'.Within ∧ t'.all = c :: t.all := by
  have hreturn := hlasts.ne_return
  cases newLine with
  | false =>
      have ht := hwithin rfl
      refine ⟨pos.advance, { t with text := c :: t.text }, ?_, ⟨ht.blank, ht.last⟩, ?_⟩
      · rw [if_neg Bool.false_ne_true, List.nil_append, Bool.not_false,
          scanBlockLines_within hreturn, if_neg (by simp [hbreak])]
      · rw [ht.all_eq]
        exact BlockText.Within.all_eq ⟨ht.blank, ht.last⟩
  | true =>
      have hpos := hbetween rfl
      refine ⟨(pos.advance indent).advance,
        { t.beginLine true c with text := c :: (t.beginLine true c).text }, ?_, ⟨rfl, rfl⟩, ?_⟩
      · rw [if_pos rfl, Bool.not_true, scanBlockLines_spaces (by omega),
          scanBlockLines_between hreturn, if_neg (by rw [Position.advance_column]; omega),
          if_neg (by rw [Position.advance_column]; omega), if_neg (by simp [hbreak]),
          if_pos (by rw [Position.advance_column]; omega)]
      · cases hlast : t.lastBreak <;> simp [BlockText.all, BlockText.beginLine, hlast]

-- Induction on the text, line by line in turn between the lines and within one.
theorem scanBlockLines_body (indent : Nat) (rest : List Char) {cs : List Char}
    (hlasts : ∀ c ∈ cs, Lasts c)
    (newLine : Bool) (pos : Position) (t : BlockText)
    (hbetween : newLine = true → pos.column = 0 ∧ t.Between)
    (hwithin : newLine = false → t.Within) :
    ∃ pos' t', scanBlockLines true indent (literalBody indent cs newLine ++ rest) pos (!newLine) t =
        scanBlockLines true indent rest pos' false t' ∧
      pos'.column = 0 ∧ t'.Between ∧ t'.all = (cs ++ finalBreak cs newLine).reverse ++ t.all := by
  induction cs generalizing newLine pos t with
  | nil =>
      cases newLine with
      | true => exact ⟨pos, t, rfl, (hbetween rfl).1, (hbetween rfl).2, rfl⟩
      | false =>
          have ht := hwithin rfl
          refine ⟨pos.newLine, { t with lastBreak := some '\n' }, rfl, rfl, ⟨?_, ?_, ?_⟩, ?_⟩
          · rw [ht.blank]
            exact fun c hc => absurd hc List.not_mem_nil
          · rintro c ⟨⟩
            decide
          · exact fun h => absurd h (by simp)
          · rw [ht.all_eq, BlockText.all, ht.blank]
            rfl
  | cons c cs ih =>
      have hc := hlasts c List.mem_cons_self
      have hlasts' : ∀ d ∈ cs, Lasts d := fun d hd => hlasts d (List.mem_cons_of_mem _ hd)
      by_cases hbreak : isBreak c = true
      · have hnormal := hc hbreak
        -- A line end between two lines is that of a blank line.
        obtain ⟨t', hstep, ht', hall⟩ : ∃ t', scanBlockLines true indent
              (c :: (literalBody indent cs true ++ rest)) pos (!newLine) t =
                scanBlockLines true indent (literalBody indent cs true ++ rest) pos.newLine false t' ∧
              t'.Between ∧ t'.all = c :: t.all := by
          cases newLine with
          | true =>
              obtain ⟨hpos, ht⟩ := hbetween rfl
              refine ⟨{ t with blankLines := c :: t.blankLines }, ?_, ⟨?_, ht.last, ht.begun⟩, rfl⟩
              · have hblank : c ≠ ' ' ∧ c ≠ '\t' := by
                  refine ⟨?_, ?_⟩ <;>
                    · rintro rfl
                      exact absurd hbreak (by decide)
                rw [Bool.not_true, scanBlockLines_between hc.ne_return,
                  if_neg (fun h => hblank.1 h.1), if_neg (fun h => hblank.2 h.1),
                  if_pos hbreak, hnormal]
              · intro d hd
                rcases List.mem_cons.mp hd with rfl | hd
                · exact hbreak
                · exact ht.blank d hd
          | false =>
              have ht := hwithin rfl
              refine ⟨{ t with lastBreak := some c }, ?_, ⟨?_, ?_, ?_⟩, ?_⟩
              · rw [Bool.not_false, scanBlockLines_within hc.ne_return,
                  if_pos hbreak, hnormal]
              · rw [ht.blank]
                exact fun d hd => absurd hd List.not_mem_nil
              · rintro d ⟨⟩
                exact hbreak
              · exact fun h => absurd h (by simp)
              · rw [ht.all_eq, BlockText.all, ht.blank]
                rfl
        obtain ⟨pos', t'', hread, hpos', ht'', hall'⟩ := ih hlasts' true pos.newLine t'
          (fun _ => ⟨rfl, ht'⟩) (fun h => Bool.noConfusion h)
        refine ⟨pos', t'', ?_, hpos', ht'', ?_⟩
        · rw [literalBody, if_pos hbreak, List.cons_append, hstep]
          exact hread
        · rw [hall', hall, finalBreak, hbreak]
          simp
      · rw [Bool.not_eq_true] at hbreak
        obtain ⟨pos', t', hstep, ht', hall⟩ := scanBlockLines_char indent hc hbreak newLine
          (fun h => (hbetween h).1) hwithin (literalBody indent cs false ++ rest)
        obtain ⟨pos'', t'', hread, hpos', ht'', hall'⟩ := ih hlasts' false pos' t'
          (fun h => Bool.noConfusion h) (fun _ => ht')
        refine ⟨pos'', t'', ?_, hpos', ht'', ?_⟩
        · rw [literalBody, hbreak, if_neg Bool.false_ne_true, List.append_assoc, List.cons_append,
            hstep]
          exact hread
        · rw [hall', hall, finalBreak, hbreak]
          simp

-- ## Headers

/-- How many columns a header adds to the parent's, where it must say so. -/
def headerDepth (cs : List Char) : Option Nat :=
  if cs.head?.any (fun c => c == ' ' || isBreak c) then some 2 else none

/-- What a header says about the line ends at the end. -/
def headerChomping (cs : List Char) : Chomping :=
  match cs.reverse with
  | [] => .strip
  | b :: before =>
      if !isBreak b then .strip
      else
        match before with
        | [] => .keep
        | b' :: _ => if isBreak b' then .keep else .clip

/-- The sign of a chomping. -/
def chompingSign : Chomping → List Char
  | .strip => ['-']
  | .clip => []
  | .keep => ['+']

theorem literalHeader_eq (cs : List Char) : literalHeader cs =
    '|' :: ((if (headerDepth cs).isSome then ['2'] else []) ++ chompingSign (headerChomping cs)) := by
  unfold literalHeader headerDepth headerChomping
  dsimp only
  congr 2
  · split <;> rfl
  · cases cs.reverse with
    | nil => rfl
    | cons b before =>
        dsimp only
        split
        · rfl
        · cases before with
          | nil => rfl
          | cons b' before =>
              dsimp only
              split <;> rfl

theorem headerDepth_cases (cs : List Char) : headerDepth cs = some 2 ∨ headerDepth cs = none := by
  unfold headerDepth
  split
  · exact .inl rfl
  · exact .inr rfl

/-- A header that gives the depth or not, and says what to keep. -/
theorem scanBlockHeader_literal (marked : Bool) (chomping : Chomping) (r : List Char)
    (pos : Position) :
    ∃ pos', scanBlockHeader true
        ⟨(if marked then ['2'] else []) ++ chompingSign chomping ++ '\n' :: r, pos⟩ =
        some (⟨true, chomping, if marked then some 2 else none⟩, ⟨r, pos'⟩) ∧ pos'.column = 0 := by
  cases chomping <;> cases marked <;> exact ⟨_, rfl, rfl⟩

/-- The header keeps the right part of the line ends at the end. -/
theorem finish_of_all {cs : List Char} (hne : cs ≠ []) {t : BlockText} (ht : t.Between)
    (hall : t.all = (cs ++ finalBreak cs true).reverse) :
    t.finish (headerChomping cs) = String.ofList cs := by
  have hclosed : t.blankLines = [] → t.all = t.lastBreak.toList ++ t.text := by
    intro hblank
    rw [BlockText.all, hblank, List.nil_append]
  cases hreverse : cs.reverse with
  | nil => exact absurd (List.reverse_eq_nil_iff.mp hreverse) hne
  | cons b before =>
      have hcs : cs = before.reverse ++ [b] := by
        rw [← List.reverse_cons, ← hreverse, List.reverse_reverse]
      have hfinal : finalBreak cs true = if isBreak b then [] else ['\n'] := by
        rw [hcs, finalBreak_concat]
      rw [hfinal] at hall
      by_cases hb : isBreak b = true
      · -- The last line is closed, so everything that was read is the text.
        rw [if_pos hb, List.append_nil, hreverse] at hall
        have hkept : String.ofList t.all.reverse = String.ofList cs := by
          rw [hall, ← hreverse, List.reverse_reverse]
        cases before with
        | nil =>
            have hchomping : headerChomping cs = .keep := by
              simp [headerChomping, hreverse, hb]
            rw [hchomping]
            exact hkept
        | cons b' before =>
            by_cases hb' : isBreak b' = true
            · have hchomping : headerChomping cs = .keep := by
                simp [headerChomping, hreverse, hb, hb']
              rw [hchomping]
              exact hkept
            · have hchomping : headerChomping cs = .clip := by
                simp [headerChomping, hreverse, hb, hb']
              rw [hclosed (ht.blankLines_eq_nil hall (by simpa using hb'))] at hkept
              rw [hchomping]
              exact hkept
      · -- The line end that closes the last line is dropped again.
        have hchomping : headerChomping cs = .strip := by
          simp [headerChomping, hreverse, hb]
        rw [if_neg hb, List.reverse_append, hreverse] at hall
        have hclosed' := hclosed (ht.blankLines_eq_nil hall (by simpa using hb))
        cases hlast : t.lastBreak with
        | none =>
            rw [hclosed', hlast, ht.begun hlast] at hall
            cases hall
        | some l =>
            rw [hclosed', hlast] at hall
            have htext : t.text = cs.reverse := by
              rw [hreverse]
              exact (List.cons.inj hall).2
            rw [hchomping]
            exact congrArg String.ofList (by rw [htext, List.reverse_reverse])

/-- Line ends before the first line with text are skipped, and then its indentation,
    whether the depth of the lines is known or still looked for. -/
theorem scanLeadingLines_feeds (k n : Nat) (cs : List Char) {pos : Position} (hpos : pos.column = 0)
    (breaks : List Char) :
    ∃ pos', pos'.column = n ∧
      scanLeadingLines (List.replicate k '\n' ++ (spaces n ++ cs)) pos 0 breaks =
        scanLeadingLines cs pos' 0 (List.replicate k '\n' ++ breaks) ∧
      scanBlockLines true n (List.replicate k '\n' ++ (spaces n ++ cs)) pos false
          ⟨[], none, breaks, false⟩ =
        scanBlockLines true n cs pos' false ⟨[], none, List.replicate k '\n' ++ breaks, false⟩ := by
  induction k generalizing pos breaks with
  | zero =>
      have hskip : ∀ (k : Nat) (pos : Position), scanLeadingLines (spaces k ++ cs) pos 0 breaks =
          scanLeadingLines cs (pos.advance k) 0 breaks := by
        intro k
        induction k with
        | zero => exact fun _ => rfl
        | succ k ih =>
            intro pos
            have hstep : scanLeadingLines (' ' :: (spaces k ++ cs)) pos 0 breaks =
                scanLeadingLines (spaces k ++ cs) pos.advance 0 breaks := rfl
            rw [spaces_succ, List.cons_append, hstep, ih, Position.advance_advance, Nat.add_comm]
      exact ⟨pos.advance n, by rw [Position.advance_column, hpos, Nat.zero_add], hskip n pos,
        scanBlockLines_spaces (by omega) _⟩
  | succ k ih =>
      obtain ⟨pos', hpos', hleading, hlines⟩ := ih (Position.newLine_column pos 1) ('\n' :: breaks)
      have hbreaks : List.replicate k '\n' ++ '\n' :: breaks =
          List.replicate (k + 1) '\n' ++ breaks := by
        rw [List.replicate_succ', List.append_assoc, List.singleton_append]
      rw [hbreaks] at hleading hlines
      refine ⟨pos', hpos', Eq.trans ?_ hleading, Eq.trans ?_ hlines⟩
      · rw [List.replicate_succ, List.cons_append, scanLeadingLines]
        · simp [hpos, show normalBreak '\n' = '\n' by decide]
        · exact fun _ h => absurd h (by decide)
      · rw [List.replicate_succ, List.cons_append, scanBlockLines_between (by decide)]
        rfl

theorem scanLeadingLines_cons {c : Char} (hspace : c ≠ ' ') (htab : c ≠ '\t')
    (hbreak : isBreak c = false) (r : List Char) (pos : Position) (breaks : List Char) :
    scanLeadingLines (c :: r) pos 0 breaks = some (pos.column, breaks, ⟨c :: r, pos⟩) := by
  rw [scanLeadingLines]
  · simp [hspace, htab, hbreak]
  · rintro _ rfl
    exact absurd hbreak (by decide)

/-- The lines of a block from its first line with text on. -/
theorem literalBody_feeds (indent k : Nat) {c : Char} (hbreak : isBreak c = false) (r : List Char) :
    literalBody indent (List.replicate k '\n' ++ c :: r) true =
      List.replicate k '\n' ++ (spaces indent ++ c :: literalBody indent r false) := by
  induction k with
  | zero =>
      rw [List.replicate_zero, List.nil_append, List.nil_append, literalBody, hbreak]
      rfl
  | succ k ih =>
      rw [List.replicate_succ, List.cons_append, literalBody, if_pos (by decide), ih,
        List.cons_append]

/-- A text can begin a block that does not tell its depth: behind line ends, with
    what is no blank. -/
def BeginsBlock (cs : List Char) : Prop :=
  ∃ k c r, cs = List.replicate k '\n' ++ c :: r ∧ c ≠ ' ' ∧ c ≠ '\t' ∧ isBreak c = false

/-- A literal block two columns deeper than its parent reads as its text, and the
    gap behind it is skipped, if its header or its first line tells the depth. -/
theorem scanBlock_body {cs : List Char} (hne : cs ≠ []) (hlasts : ∀ c ∈ cs, Lasts c) {parent : Int}
    (hparent : 0 ≤ parent) (hindent : (indent : Int) = parent + 2) (hrest : Follows parent rest)
    (pos : Position) {marked : Bool} (hmarked : marked = false → BeginsBlock cs) :
    ∃ pos', scanBlock true parent
        ⟨(if marked then ['2'] else []) ++ chompingSign (headerChomping cs) ++
          '\n' :: (literalBody indent cs true ++ rest), pos⟩ =
        some (String.ofList cs, (Scan.toLexeme false rest pos' false true).1) ∧
      pos'.column = 0 := by
  obtain ⟨pos₁, hheader, hpos₁⟩ := scanBlockHeader_literal marked (headerChomping cs)
    (literalBody indent cs true ++ rest) pos
  have hempty : (⟨[], none, [], false⟩ : BlockText).Between :=
    ⟨fun c hc => absurd hc List.not_mem_nil, fun c hc => absurd hc (by simp), fun _ => rfl⟩
  obtain ⟨pos', t, hread, hpos', ht, hall⟩ := scanBlockLines_body indent rest
    hlasts true pos₁ _ (fun _ => ⟨hpos₁, hempty⟩) (fun h => Bool.noConfusion h)
  have hlines : scanBlockLines true indent (literalBody indent cs true ++ rest) pos₁ false
      ⟨[], none, [], false⟩ = some (t, (Scan.toLexeme false rest pos' false true).1) :=
    hread.trans (scanBlockLines_follows (hrest.mono (by omega)) hpos' t)
  have hfinish := finish_of_all hne ht (hall.trans (List.append_nil _))
  refine ⟨pos', ?_, hpos'⟩
  rw [scanBlock, hheader]
  cases marked with
  | true =>
      -- The header says how deep the lines are.
      have hcolumn : (max parent 0).toNat + 2 = indent := by omega
      simp only [if_true, Option.bind_eq_bind, Option.bind_some, hcolumn, hlines, hfinish,
        Option.pure_def]
  | false =>
      -- The first line with text says so.
      obtain ⟨k, c, r, rfl, hspace, htab, hbreak⟩ := hmarked rfl
      have hbody : literalBody indent (List.replicate k '\n' ++ c :: r) true ++ rest =
          List.replicate k '\n' ++ (spaces indent ++ c :: (literalBody indent r false ++ rest)) := by
        rw [literalBody_feeds indent k hbreak]
        simp
      obtain ⟨pos₂, hpos₂, hleading, hskipped⟩ := scanLeadingLines_feeds k indent
        (c :: (literalBody indent r false ++ rest)) hpos₁ []
      have hcolumn : max (max indent (parent + 1).toNat) 1 = indent := by omega
      rw [scanLeadingLines_cons hspace htab hbreak, hpos₂] at hleading
      rw [hbody, hskipped, List.append_nil] at hlines
      rw [List.append_nil] at hleading
      simp only [Bool.false_eq_true, if_false, hbody, hleading, Option.bind_eq_bind,
        Option.bind_some, Option.pure_def, hcolumn, hlines, hfinish]

/-- Where neither the header nor the first line with text tells the depth, because
    that line begins with a tab, the block cannot be read. -/
theorem scanBlock_tab (k : Nat) (cs : List Char) (chomping : Chomping) (parent : Int)
    (pos : Position) :
    scanBlock true parent ⟨chompingSign chomping ++ '\n' ::
      (literalBody indent (List.replicate k '\n' ++ '\t' :: cs) true ++ rest), pos⟩ = none := by
  obtain ⟨pos₁, hheader, hpos₁⟩ := scanBlockHeader_literal false chomping
    (literalBody indent (List.replicate k '\n' ++ '\t' :: cs) true ++ rest) pos
  have hbody : literalBody indent (List.replicate k '\n' ++ '\t' :: cs) true ++ rest =
      List.replicate k '\n' ++ (spaces indent ++ '\t' :: (literalBody indent cs false ++ rest)) := by
    rw [literalBody_feeds indent k (by decide)]
    simp
  obtain ⟨pos₂, -, hleading, -⟩ := scanLeadingLines_feeds k indent
    ('\t' :: (literalBody indent cs false ++ rest)) hpos₁ []
  have hstuck : scanLeadingLines ('\t' :: (literalBody indent cs false ++ rest)) pos₂ 0
      (List.replicate k '\n' ++ []) = none := rfl
  rw [if_neg Bool.false_ne_true, List.nil_append] at hheader
  rw [scanBlock, hheader, hbody]
  simp only [Bool.false_eq_true, if_false, Option.bind_eq_bind, Option.bind_some,
    hleading, hstuck, Option.bind_none]

/-- A literal block reads as its text. -/
theorem scanBlock_text {cs : List Char} (h : IsBlock cs) {parent : Int} (hparent : 0 ≤ parent)
    (hindent : (indent : Int) = parent + 2) (hrest : Follows parent rest) (pos : Position) :
    ∃ pos', scanBlock true parent
        ⟨(literalHeader cs).drop 1 ++ '\n' :: (literalBody indent cs true ++ rest), pos⟩ =
        some (String.ofList cs, (Scan.toLexeme false rest pos' false true).1) ∧
      pos'.column = 0 := by
  have hne : cs ≠ [] := List.ne_nil_of_mem h.feed
  have hlasts : ∀ c ∈ cs, Lasts c := fun c hc => lasts_of_isPrintable (h.printable c hc)
  rw [literalHeader_eq, List.drop_succ_cons, List.drop_zero]
  refine scanBlock_body hne hlasts hparent hindent hrest pos fun hdepth => ?_
  have hnone := (headerDepth_cases cs).resolve_left fun hsome => by
    rw [hsome] at hdepth
    cases hdepth
  cases cs with
  | nil => exact absurd rfl hne
  | cons c r =>
      have hfirst : c ≠ ' ' ∧ isBreak c = false := by
        unfold headerDepth at hnone
        simpa using hnone
      exact ⟨0, c, r, rfl, hfirst.1,
        ne_tab_of_isPrintable (h.printable c List.mem_cons_self), hfirst.2⟩

end

end Yaml

end SimStudio
