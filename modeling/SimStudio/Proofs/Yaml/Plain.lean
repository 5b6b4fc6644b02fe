import SimStudio.Proofs.Yaml.Lines

/-!
# Plain Scalars Read Back

A scalar that is written plain is read up to the colon or the line end that
stands behind it.

Inside the scalar a blank may be followed by anything that begins no other
lexeme. The reader holds blanks back until it sees a word behind them, so the
induction carries the blanks held back and relies on the last character being
none.

## Theorems

* `Yaml.scanPlain_text`: A plain scalar is read to its end.
* `Yaml.scanPlain_colon`: It ends at a colon.
* `Yaml.scanPlain_feed`: It ends with its line, and the gap is skipped.
-/

namespace SimStudio

namespace Yaml

theorem scanPlain_cons {c : Char} (hc : c ≠ '\r') (inFlow : Bool) (indent : Int) (cs : List Char)
    (pos : Position) (gap : Gap) (acc : List Char) :
    scanPlain inFlow indent (c :: cs) pos gap acc =
      if isBreak c then
        scanPlain inFlow indent cs pos.newLine (gap.addBreak (normalBreak c)) acc
      else if isSpace c then
        if gap.endsLine && pos.column < indent && c == '\t' then none
        else scanPlain inFlow indent cs pos.advance (gap.addBlank c) acc
      else if (!inFlow && !gap.isNone && pos.column < indent) ||
          (pos.column = 0 && atDocumentMark (c :: cs)) ||
          (!gap.isNone && c == '#') then
        some ⟨String.ofList acc.reverse, ⟨c :: cs, pos⟩, gap.endsLine⟩
      else if inFlow && clashesInFlow (c :: cs) then none
      else if endsPlain inFlow (c :: cs) then
        some ⟨String.ofList acc.reverse, ⟨c :: cs, pos⟩, gap.endsLine⟩
      else scanPlain inFlow indent cs pos.advance .none (c :: (gap.text ++ acc)) := by
  rw [scanPlain]
  exact fun _ h => absurd h hc

/-- Characters that go on with a word do so before any text. -/
theorem endsWord_append {cs : List Char} (h : endsWord cs = false) (tail : List Char) :
    endsWord (cs ++ tail) = false := by
  cases cs with
  | nil => exact absurd h (by decide)
  | cons c cs => exact h

section

variable {indent : Int} {tail : List Char}

-- Induction on the text. The blanks `held` have been read but are not yet part
-- of the scalar; `before` is the last of them, or the character they follow.
theorem scanPlain_inner {cs : List Char} {pos : Position} {before : Char}
    (held acc : List Char) (hprintable : ∀ c ∈ cs, isPrintable c = true)
    (hline : ∀ c ∈ cs, isBreak c = false) (hmark : innerMark before cs = false)
    (hbefore : held ≠ [] → isGap before = true) (hheld : cs = [] → held = [])
    (hends : cs.getLast? ≠ some ' ') (hpos : 0 < pos.column) (hindent : indent ≤ pos.column) :
    scanPlain false indent (cs ++ tail) pos (.blanks held) acc =
      scanPlain false indent tail (pos.advance cs.length) .none (cs.reverse ++ (held ++ acc)) := by
  induction cs generalizing pos before held acc with
  | nil =>
      rw [hheld rfl]
      rfl
  | cons c cs ih =>
      have hc := hprintable c List.mem_cons_self
      have hbreak := hline c List.mem_cons_self
      have hprintable' : ∀ d ∈ cs, isPrintable d = true := fun d hd =>
        hprintable d (List.mem_cons_of_mem _ hd)
      have hline' : ∀ d ∈ cs, isBreak d = false := fun d hd => hline d (List.mem_cons_of_mem _ hd)
      simp only [innerMark, Bool.or_eq_false_iff] at hmark
      obtain ⟨⟨hcolon, hcomment⟩, hrest⟩ := hmark
      have hends' : cs.getLast? ≠ some ' ' := by
        cases cs with
        | nil => simp
        | cons d cs => rwa [List.getLast?_cons_cons] at hends
      have hpos' : 0 < pos.advance.column := Nat.succ_pos _
      have hindent' : indent ≤ pos.advance.column := by
        rw [Position.advance_column]
        omega
      rw [List.cons_append, scanPlain_cons (ne_return_of_isPrintable hc), if_neg (by simp [hbreak])]
      by_cases hspace : c = ' '
      · subst hspace
        have hne : cs ≠ [] := by
          rintro rfl
          exact hends rfl
        rw [if_pos (by decide), if_neg (by simp)]
        rw [show Gap.addBlank ' ' (.blanks held) = .blanks (' ' :: held) from rfl,
          ih (' ' :: held) acc hprintable' hline' hrest (fun _ => rfl) (fun h => absurd h hne) hends'
            hpos' hindent']
        simp [Nat.add_comm]
      · have hword : isSpace c = false := by
          rw [← Bool.not_eq_true, isSpace_iff hc]
          exact hspace
        have hcomment' : held ≠ [] → c ≠ '#' := by
          rintro hne rfl
          rw [hbefore hne] at hcomment
          exact absurd hcomment (by decide)
        have hgap : (!Gap.isNone (.blanks held) && c == '#') = false := by
          cases held with
          | nil => rfl
          | cons b held => simp [hcomment' (by simp)]
        have hcolon' : endsPlain false (c :: (cs ++ tail)) = false := by
          by_cases heq : c = ':'
          · rw [heq, beq_self_eq_true, Bool.true_and] at hcolon
            simp [endsPlain, endsWord_append hcolon]
          · simp [endsPlain, heq]
        rw [if_neg (by simp [hword]), if_neg, if_neg (by simp), if_neg (by simp [hcolon'])]
        · refine (ih [] (c :: (held ++ acc)) hprintable' hline' hrest (fun h => absurd rfl h)
            (fun _ => rfl) hends' hpos' hindent').trans ?_
          simp [Nat.add_comm]
        · rw [hgap]
          simp only [Bool.or_false, Bool.or_eq_true, Bool.and_eq_true, decide_eq_true_eq]
          omega

/-- A plain scalar is read to its end. -/
theorem scanPlain_text {first : Char} {rest : List Char} {pos : Position} (h : IsPlain first rest)
    (hstart : pos.column = 0 → atDocumentMark (first :: (rest ++ tail)) = false)
    (hindent : indent ≤ pos.column + 1) :
    scanPlain false indent (first :: (rest ++ tail)) pos .none [] =
      scanPlain false indent tail (pos.advance (rest.length + 1)) .none (first :: rest).reverse := by
  have hc := h.printable first List.mem_cons_self
  have hbreak := h.oneLine first List.mem_cons_self
  have hspace : isSpace first = false := by
    rw [← Bool.not_eq_true, isSpace_iff hc]
    exact h.begins.2
  have hmark : (pos.column = 0 && atDocumentMark (first :: (rest ++ tail))) = false := by
    by_cases hpos : pos.column = 0
    · rw [hstart hpos, Bool.and_false]
    · simp [hpos]
  have hcolon : endsPlain false (first :: (rest ++ tail)) = false := by
    by_cases heq : first = ':'
    · simp [endsPlain, endsWord_append (h.apart (.inr (.inl heq)))]
    · simp [endsPlain, heq]
  have hends : rest.getLast? ≠ some ' ' := by
    have hlast := h.ends
    cases rest with
    | nil => simp
    | cons d cs => rwa [List.getLast?_cons_cons] at hlast
  rw [scanPlain_cons (ne_return_of_isPrintable hc), if_neg (by simp [hbreak]),
    if_neg (by simp [hspace]), if_neg, if_neg (by simp), if_neg (by simp [hcolon])]
  · rw [Gap.none, scanPlain_inner [] _ (fun d hd => h.printable d (List.mem_cons_of_mem _ hd))
      (fun d hd => h.oneLine d (List.mem_cons_of_mem _ hd)) h.unmarked (fun h => absurd rfl h)
      (fun _ => rfl) hends (Nat.succ_pos _) (by rw [Position.advance_column]; omega)]
    simp [Gap.text, Gap.none, Nat.add_comm]
  · rw [hmark]
    simp [Gap.none, Gap.isNone]

/-- A plain scalar ends at a colon with a gap behind it. -/
theorem scanPlain_colon (h : endsWord tail = true) (pos : Position) (acc : List Char) :
    scanPlain false indent (':' :: tail) pos .none acc =
      some ⟨String.ofList acc.reverse, ⟨':' :: tail, pos⟩, false⟩ := by
  rw [scanPlain_cons (by decide), if_neg (by decide), if_neg (by decide), if_neg, if_neg (by simp),
    if_pos (by simp [endsPlain, h])]
  · rfl
  · simp [Gap.none, Gap.isNone, atDocumentMark]

theorem scanPlain_spaces (k : Nat) (pos : Position) (first : Option Char) (later acc : List Char) :
    scanPlain false indent (spaces k ++ tail) pos (.lines first later) acc =
      scanPlain false indent tail (pos.advance k) (.lines first later) acc := by
  induction k generalizing pos with
  | zero => rfl
  | succ k ih =>
      rw [spaces_succ, List.cons_append, scanPlain_cons (by decide), if_neg (by decide),
        if_pos (by decide), if_neg (by simp)]
      rw [show Gap.addBlank ' ' (.lines first later) = .lines first later from rfl, ih]
      simp [Nat.add_comm]

/-- A plain scalar ends with its line if the text does not go on deeper. The gap
    behind it is skipped. -/
theorem scanPlain_feed (h : Follows (indent - 1) tail) (pos : Position) (acc : List Char) :
    scanPlain false indent ('\n' :: tail) pos .none acc =
      some ⟨String.ofList acc.reverse, (Scan.toLexeme false tail pos.newLine false true).1, true⟩ := by
  have hfeed : scanPlain false indent ('\n' :: tail) pos .none acc =
      scanPlain false indent tail pos.newLine (.lines (some '\n') []) acc := by
    rw [scanPlain_cons (by decide), if_pos (by decide)]
    rfl
  rw [hfeed]
  cases h with
  | nothing => rfl
  | line hk hc =>
      obtain ⟨hspace, hbreak, -, -⟩ := not_gap_of_startsLexeme hc
      rw [scanPlain_spaces, toLexeme_spaces, toLexeme_start hc,
        scanPlain_cons (ne_of_startsLexeme hc).2.2, if_neg (by simp [hbreak]),
        if_neg (by simp [hspace]), if_pos]
      · rfl
      · rw [Position.advance_column, Position.newLine_column, Nat.zero_add,
          decide_eq_true (by omega)]
        rfl

end

end Yaml

end SimStudio
