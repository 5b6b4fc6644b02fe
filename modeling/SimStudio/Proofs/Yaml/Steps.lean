import SimStudio.Proofs.Yaml.Block
import SimStudio.Proofs.Yaml.Plain
import SimStudio.Proofs.Yaml.Quoted

/-!
# Steps of the Scanner

What the scanner does with each piece of a written text, as steps from one state
to another.

Before every lexeme the scanner skips what may be skipped, drops the candidates
that have lapsed and closes the blocks that have ended. Two states that agree
after this go on in the same way (`Scan.run_succ`), and so a step may end in
whichever of them is easier to describe: at the beginning of a line, with the
collections that end there already closed.

## Main definitions

* `Yaml.Scan.settle`: A state before the next lexeme.
* `Yaml.Scan.Leads`: One state goes on as another does.
* `Yaml.Scan.Stuck`: A state from which every run fails.
* `Yaml.Scan.Yields`: One of the two.
* `Yaml.Scan.free`: A state outside flow collections without a candidate.

## Theorems

* `Yaml.Scan.Leads.trans`: Steps one after another.
* `Yaml.Scan.leads_close`: The end of a collection.
* `Yaml.Scan.leads_dash`, `Yaml.Scan.leads_question`, `Yaml.Scan.leads_colon`:
  The marks of entries.
* `Yaml.Scan.leads_scalarText`, `Yaml.Scan.leads_key`: Scalars as values and as
  keys.
* `Yaml.Scan.run_of_leads`: Steps from the beginning of a text to its end.
-/

namespace SimStudio

namespace Yaml

namespace Scan

-- ## Going On

/-- The state before the next lexeme: what may be skipped is skipped, and the blocks
    that end there are closed. -/
def settle (s : Scan) : Option Scan :=
  s.skipGap.dropLapsed.map fun s => s.closeBlocks (if s.cursor.rest.isEmpty then -1 else s.column)

theorem dropLapsed_cursor {s t : Scan} (h : s.dropLapsed = some t) : t.cursor = s.cursor := by
  unfold dropLapsed at h
  dsimp only at h
  split at h
  · cases h
  · rw [← Option.some.inj h]

theorem closeBlocks_cursor (s : Scan) (column : Int) : (s.closeBlocks column).cursor = s.cursor := by
  unfold closeBlocks
  split <;> rfl

/-- How a run goes on depends only on the state before the next lexeme. -/
theorem run_succ (fuel : Nat) (s : Scan) :
    run (fuel + 1) s = s.settle.bind fun t =>
      if t.cursor.rest.isEmpty then t.dropCandidate.map fun t => (.streamEnd :: t.tokens).reverse
      else t.lexeme.bind (run fuel) := by
  rw [run, finish, step, settle]
  cases hs : s.skipGap.dropLapsed with
  | none => simp
  | some t =>
      have hcursor := dropLapsed_cursor hs
      have hcolumn : t.column = s.skipGap.column := by rw [column, hcursor, column]
      by_cases hend : s.skipGap.cursor.rest.isEmpty = true
      · simp only [hend, if_true, Option.bind_eq_bind, Option.bind_some, Option.map_some, hcursor,
          closeBlocks_cursor]
        cases (t.closeBlocks (-1)).dropCandidate <;> rfl
      · simp only [hend, Option.bind_eq_bind, Option.bind_some, Option.map_some, hcursor,
          closeBlocks_cursor, Bool.false_eq_true, if_false]

/-- How many characters are left where the next lexeme begins. -/
def left (s : Scan) : Nat := s.skipGap.cursor.rest.length

theorem length_toLexeme_le (inFlow : Bool) (cs : List Char) (pos : Position)
    (comment allowed : Bool) :
    (toLexeme inFlow cs pos comment allowed).1.rest.length ≤ cs.length := by
  fun_induction toLexeme inFlow cs pos comment allowed <;> simp_all <;> omega

theorem left_le (s : Scan) : s.left ≤ s.cursor.rest.length := length_toLexeme_le _ _ _ _ _

/-- One state goes on as another does, with steps for which the characters
    between them are enough fuel. -/
def Leads (s t : Scan) : Prop :=
  ∃ n, n + t.left ≤ s.left ∧ ∀ fuel, run (n + fuel + 1) s = run (fuel + 1) t

theorem Leads.trans {s t u : Scan} (h : Leads s t) (h' : Leads t u) : Leads s u := by
  obtain ⟨m, hm, hst⟩ := h
  obtain ⟨n, hn, htu⟩ := h'
  refine ⟨m + n, by omega, fun fuel => ?_⟩
  rw [Nat.add_assoc m n fuel, hst, htu]

theorem leads_of_settle {s t : Scan} (h : s.settle = t.settle) (hleft : t.left ≤ s.left) :
    Leads s t := by
  refine ⟨0, by omega, fun fuel => ?_⟩
  rw [Nat.zero_add, run_succ, run_succ, h]

theorem Leads.refl (s : Scan) : Leads s s := leads_of_settle rfl (Nat.le_refl _)

theorem leads_of_lexeme {s s' t : Scan} (hsettle : s.settle = some s')
    (hlexeme : s'.lexeme = some t) (hlength : t.cursor.rest.length < s'.cursor.rest.length) :
    Leads s t := by
  have hcursor : s'.cursor = s.skipGap.cursor := by
    unfold settle at hsettle
    cases hs : s.skipGap.dropLapsed with
    | none =>
        rw [hs] at hsettle
        cases hsettle
    | some u =>
        rw [hs, Option.map_some, Option.some.injEq] at hsettle
        rw [← hsettle, closeBlocks_cursor, dropLapsed_cursor hs]
  have hrest : s'.cursor.rest.isEmpty = false := by
    cases hcs : s'.cursor.rest with
    | nil => simp [hcs] at hlength
    | cons c cs => rfl
  refine ⟨1, ?_, fun fuel => ?_⟩
  · have hleft := left_le t
    rw [left, left, ← hcursor] at *
    omega
  · rw [Nat.add_comm 1 fuel, run_succ, hsettle, Option.bind_some, hrest, if_neg Bool.false_ne_true,
      hlexeme, Option.bind_some]

/-- A state from which every run fails, however much fuel there is. -/
def Stuck (s : Scan) : Prop :=
  ∃ n ≤ s.left, ∀ fuel, run (n + fuel + 1) s = none

theorem Leads.stuck {s t : Scan} (h : Leads s t) (ht : Stuck t) : Stuck s := by
  obtain ⟨m, hm, hst⟩ := h
  obtain ⟨n, hn, hfails⟩ := ht
  refine ⟨m + n, by omega, fun fuel => ?_⟩
  rw [Nat.add_assoc m n fuel, hst, hfails]

theorem stuck_of_lexeme {s s' : Scan} (hsettle : s.settle = some s') (hrest : s'.cursor.rest ≠ [])
    (hlexeme : s'.lexeme = none) : Stuck s := by
  refine ⟨0, Nat.zero_le _, fun fuel => ?_⟩
  rw [Nat.zero_add, run_succ, hsettle, Option.bind_some, if_neg (by simpa using hrest), hlexeme]
  rfl

/-- A scan comes to a state at the beginning of a line, or fails. -/
def Yields (succeeds : Bool) (s : Scan) (t : Position → Scan) : Prop :=
  if succeeds then ∃ pos, pos.column = 0 ∧ Leads s (t pos) else Stuck s

section

variable {succeeds succeeds' : Bool} {s s' : Scan} {t u : Position → Scan}

theorem Leads.yields (h : Leads s s') (h' : Yields succeeds s' t) : Yields succeeds s t := by
  cases succeeds with
  | true =>
      obtain ⟨pos, hpos, ht⟩ := h'
      exact ⟨pos, hpos, h.trans ht⟩
  | false => exact h.stuck h'

/-- A scan that goes on from the beginning of a line fails if either part does. -/
theorem Yields.bind (h : Yields succeeds s t)
    (h' : ∀ pos, pos.column = 0 → Yields succeeds' (t pos) u) :
    Yields (succeeds && succeeds') s u := by
  cases succeeds with
  | true =>
      obtain ⟨pos, hpos, ht⟩ := h
      exact ht.yields (h' pos hpos)
  | false => exact h

theorem Yields.mono (h : Yields succeeds s t)
    (h' : ∀ pos, pos.column = 0 → Leads (t pos) (u pos)) : Yields succeeds s u := by
  cases succeeds with
  | true =>
      obtain ⟨pos, hpos, ht⟩ := h
      exact ⟨pos, hpos, ht.trans (h' pos hpos)⟩
  | false => exact h

end

-- ## States Without a Candidate

/-- A state outside flow collections in which no candidate is left. -/
def free (cs : List Char) (pos : Position) (tokens : List Token) (indent : Int) (outer : List Int)
    (allowed : Bool) : Scan :=
  ⟨⟨cs, pos⟩, tokens, indent, outer, [none], allowed⟩

section

variable {pos : Position} {tokens : List Token} {indent : Int} {outer : List Int} {allowed : Bool}
  {rest : List Char}

theorem unroll_of_le {column : Int} (h : indent ≤ column) :
    unroll column tokens indent outer = (tokens, indent, outer) := by
  cases outer with
  | nil => rfl
  | cons parent outer => exact if_neg (Int.not_lt.mpr h)

theorem closeBlocks_of_le {s : Scan} {column : Int} (h : s.indent ≤ column) :
    s.closeBlocks column = s := by
  unfold closeBlocks
  split
  · rfl
  · rw [unroll_of_le h]

/-- A candidate of an earlier line, which need not become a key. -/
def Stale (line : Nat) (k : Option KeyCandidate) : Prop :=
  ∀ c ∈ k, c.required = false ∧ c.pos.line < line

theorem dropLapsed_stale {cursor : Cursor} {k : Option KeyCandidate}
    (h : Stale cursor.pos.line k) :
    dropLapsed ⟨cursor, tokens, indent, outer, [k], allowed⟩ =
      some ⟨cursor, tokens, indent, outer, [none], allowed⟩ := by
  cases k with
  | none => rfl
  | some c =>
      obtain ⟨hrequired, hlt⟩ := h c rfl
      have hlapsed : lapsed cursor.pos c = true := by
        rw [lapsed, Bool.or_eq_true, decide_eq_true_eq]
        exact .inl hlt
      simp [dropLapsed, hrequired, hlapsed]

theorem settle_free (k : Nat) {c : Char} (hc : startsLexeme c = true)
    (hcolumn : indent ≤ (pos.column + k : Nat)) (cs : List Char) :
    (free (spaces k ++ c :: cs) pos tokens indent outer allowed).settle =
      some (free (c :: cs) (pos.advance k) tokens indent outer allowed) := by
  have hskip : (free (spaces k ++ c :: cs) pos tokens indent outer allowed).skipGap =
      free (c :: cs) (pos.advance k) tokens indent outer allowed := by
    rw [skipGap]
    simp only [free, inFlow, List.length_singleton, Nat.lt_irrefl, decide_false, toLexeme_spaces,
      toLexeme_start hc]
  rw [settle, hskip]
  exact congrArg some (closeBlocks_of_le hcolumn)

/-- What is skipped at the beginning of a line. -/
theorem settle_line (h : Follows indent rest) (hpos : pos.column = 0) :
    ∃ cs pos', (cs = [] ∨ (pos'.column : Int) ≤ indent) ∧ pos'.line = pos.line ∧
      toLexeme false rest pos false true = (⟨cs, pos'⟩, true) ∧
      toLexeme false cs pos' false true = (⟨cs, pos'⟩, true) := by
  cases h with
  | nothing => exact ⟨[], pos, .inl rfl, rfl, rfl, rfl⟩
  | line hk hc =>
      rename_i k c cs
      refine ⟨c :: cs, pos.advance k, .inr ?_, rfl, ?_, toLexeme_start hc false cs _ true⟩
      · rw [Position.advance_column, hpos, Nat.zero_add]
        exact hk
      · rw [toLexeme_spaces, toLexeme_start hc]

theorem skipGap_single (cs : List Char) (k : Option KeyCandidate) (allowed : Bool) :
    skipGap ⟨⟨cs, pos⟩, tokens, indent, outer, [k], allowed⟩ =
      ⟨(toLexeme false cs pos false allowed).1, tokens, indent, outer, [k],
        (toLexeme false cs pos false allowed).2⟩ :=
  rfl

/-- Where a line begins that is less deep, the innermost collection is at its
    end. -/
theorem settle_close {deep : Nat} (hdeep : indent < deep) (h : Follows indent rest)
    (hpos : pos.column = 0) :
    (free rest pos tokens deep (indent :: outer) true).settle =
      (free rest pos (.blockEnd :: tokens) indent outer true).settle := by
  have hclose : ∀ cs pos (column : Int), column < deep →
      closeBlocks (free cs pos tokens deep (indent :: outer) true) column =
        closeBlocks (free cs pos (.blockEnd :: tokens) indent outer true) column := by
    intro cs pos column hcolumn
    simp only [closeBlocks, free, inFlow, List.length_singleton, Nat.lt_irrefl, decide_false,
      Bool.false_eq_true, if_false, unroll, if_pos hcolumn]
  obtain ⟨cs, pos', hcolumn, -, hskip, -⟩ := settle_line h hpos
  have hsettle : ∀ tokens indent outer, (free rest pos tokens indent outer true).settle =
      some (closeBlocks (free cs pos' tokens indent outer true)
        (if cs.isEmpty then -1 else pos'.column)) := by
    intro tokens indent outer
    rw [settle, free, skipGap_single, hskip]
    rfl
  rw [hsettle, hsettle]
  refine congrArg some (hclose cs pos' _ ?_)
  split
  · omega
  · rename_i hcs
    have hne : cs ≠ [] := by simpa using hcs
    exact Int.lt_of_le_of_lt (hcolumn.resolve_left hne) hdeep

theorem leads_close {deep : Nat} (hdeep : indent < deep) (h : Follows indent rest)
    (hpos : pos.column = 0) :
    Leads (free rest pos tokens deep (indent :: outer) true)
      (free rest pos (.blockEnd :: tokens) indent outer true) :=
  leads_of_settle (settle_close hdeep h hpos) (Nat.le_refl _)

/-- A candidate of an earlier line is gone, and what was skipped already makes no
    difference. -/
theorem leads_skipped {k : Option KeyCandidate} (hk : Stale pos.line k)
    (h : Follows indent rest) (hpos : pos.column = 0) :
    Leads ⟨(toLexeme false rest pos false true).1, tokens, indent, outer, [k], true⟩
      (free rest pos tokens indent outer true) := by
  obtain ⟨cs, pos', -, hline', hskip, hagain⟩ := settle_line h hpos
  refine leads_of_settle ?_ ?_
  · rw [hskip, settle, settle, skipGap_single, free, skipGap_single, hskip, hagain,
      dropLapsed_stale (hline' ▸ hk)]
    rfl
  · rw [left, left, free, skipGap_single, hskip, skipGap_single, hagain]

/-- Where a line ends, a candidate of it is gone. -/
theorem leads_feed {column : Int} {k : Option KeyCandidate} (hk : Stale pos.newLine.line k)
    (h : Follows column rest) :
    Leads ⟨⟨'\n' :: rest, pos⟩, tokens, indent, outer, [k], allowed⟩
      (free rest pos.newLine tokens indent outer true) := by
  obtain ⟨cs, pos', -, hline', hskip, -⟩ := settle_line h (Position.newLine_column pos 1)
  have hfeed : toLexeme false ('\n' :: rest) pos false allowed = (⟨cs, pos'⟩, true) := by
    rw [toLexeme_feed, Bool.not_false, Bool.or_true, hskip]
  refine leads_of_settle ?_ ?_
  · rw [settle, settle, skipGap_single, free, skipGap_single, hfeed, hskip,
      dropLapsed_stale (hline' ▸ hk)]
    rfl
  · rw [left, left, free, skipGap_single, hskip, skipGap_single, hfeed]

/-- A blank before a lexeme makes no difference. -/
theorem leads_blank (cs : List Char) :
    Leads (free (' ' :: cs) pos tokens indent outer allowed)
      (free cs pos.advance tokens indent outer allowed) :=
  leads_of_settle rfl (Nat.le_refl _)

-- ## Marks of Entries

theorem openBlock_same (cs : List Char) (t : Token) (h : indent = pos.column) :
    (free cs pos tokens indent outer allowed).openBlock t =
      free cs pos tokens indent outer allowed := by
  rw [openBlock, if_neg]
  simp [opensBlock, free, column, h]

theorem openBlock_deeper (cs : List Char) (t : Token) (h : indent < pos.column) :
    (free cs pos tokens indent outer allowed).openBlock t =
      free cs pos (t :: tokens) pos.column (indent :: outer) allowed := by
  rw [openBlock, if_pos]
  · rfl
  · simp [opensBlock, inFlow, free, column, h]

/-- A mark with a blank behind it is read together with the blank. -/
theorem leads_mark {k : Nat} {c : Char} {cs : List Char} {tokens' : List Token} {indent' : Int}
    {outer' : List Int} {allowed' : Bool} (hc : startsLexeme c = true)
    (hcolumn : indent ≤ (pos.column + k : Nat))
    (hlexeme : (free (c :: ' ' :: cs) (pos.advance k) tokens indent outer allowed).lexeme =
      some (free (' ' :: cs) (pos.advance k).advance tokens' indent' outer' allowed')) :
    Leads (free (spaces k ++ c :: ' ' :: cs) pos tokens indent outer allowed)
      (free cs (pos.advance (k + 2)) tokens' indent' outer' allowed') := by
  refine (leads_of_lexeme (settle_free k hc hcolumn (' ' :: cs)) hlexeme
    (Nat.lt_succ_self _)).trans ?_
  rw [← Position.advance_advance pos k 2, ← Position.advance_advance _ 1 1]
  exact leads_blank cs

theorem lexeme_dash (cs : List Char) :
    (free ('-' :: ' ' :: cs) pos tokens indent outer allowed).lexeme =
      (free ('-' :: ' ' :: cs) pos tokens indent outer allowed).blockEntry := by
  rw [lexeme, if_neg (by simp [free]), if_neg (by simp [free, atDocumentMark])]
  rfl

theorem lexeme_question (cs : List Char) :
    (free ('?' :: ' ' :: cs) pos tokens indent outer allowed).lexeme =
      (free ('?' :: ' ' :: cs) pos tokens indent outer allowed).complexKey := by
  rw [lexeme, if_neg (by simp [free]), if_neg (by simp [free, atDocumentMark])]
  rfl

theorem lexeme_colon {c : Char} (hc : c = ' ' ∨ c = '\n') (cs : List Char)
    (k : Option KeyCandidate) :
    lexeme ⟨⟨':' :: c :: cs, pos⟩, tokens, indent, outer, [k], allowed⟩ =
      value ⟨⟨':' :: c :: cs, pos⟩, tokens, indent, outer, [k], allowed⟩ := by
  rw [lexeme, if_neg (by simp), if_neg (by simp [atDocumentMark])]
  rcases hc with rfl | rfl <;> rfl

/-- The dash of an entry, in the column of its list. -/
theorem leads_dash {k : Nat} (hcolumn : indent = (pos.column + k : Nat)) (cs : List Char) :
    Leads (free (spaces k ++ '-' :: ' ' :: cs) pos tokens indent outer true)
      (free cs (pos.advance (k + 2)) (.blockEntry :: tokens) indent outer true) := by
  refine leads_mark (by decide) (Int.le_of_eq hcolumn) ?_
  rw [lexeme_dash, blockEntry, openBlock_same _ _ hcolumn]
  rfl

/-- The dash of an entry that opens a list. -/
theorem leads_dash_open {k column : Nat} (hk : pos.column + k = column) (hcolumn : indent < column)
    (cs : List Char) :
    Leads (free (spaces k ++ '-' :: ' ' :: cs) pos tokens indent outer true)
      (free cs (pos.advance (k + 2)) (.blockEntry :: .blockSequence :: tokens) column
        (indent :: outer) true) := by
  subst hk
  refine leads_mark (by decide) (Int.le_of_lt hcolumn) ?_
  rw [lexeme_dash, blockEntry, openBlock_deeper _ _ hcolumn]
  rfl

/-- The question mark of a key. If it stands deeper than the innermost collection,
    it opens a mapping. -/
theorem leads_question {k column : Nat} (hk : pos.column + k = column) (hcolumn : indent ≤ column)
    (cs : List Char) :
    Leads (free (spaces k ++ '?' :: ' ' :: cs) pos tokens indent outer true)
      (free cs (pos.advance (k + 2))
        (.key :: (if indent < column then .blockMapping :: tokens else tokens)) column
        (if indent < column then indent :: outer else outer) true) := by
  subst hk
  refine leads_mark (by decide) hcolumn ?_
  by_cases hdeeper : indent < (pos.column + k : Nat)
  · rw [lexeme_question, complexKey, openBlock_deeper _ _ hdeeper, if_pos hdeeper, if_pos hdeeper]
    rfl
  · have hsame : indent = (pos.column + k : Nat) := by omega
    rw [lexeme_question, complexKey, openBlock_same _ _ hsame, if_neg hdeeper, if_neg hdeeper,
      ← hsame]
    rfl

/-- The colon on the line below a key with a question mark. -/
theorem leads_colon {k : Nat} (hcolumn : indent = (pos.column + k : Nat)) (cs : List Char) :
    Leads (free (spaces k ++ ':' :: ' ' :: cs) pos tokens indent outer true)
      (free cs (pos.advance (k + 2)) (.value :: tokens) indent outer true) := by
  refine leads_mark (by decide) (Int.le_of_eq hcolumn) ?_
  have hvalue : value (free (':' :: ' ' :: cs) (pos.advance k) tokens indent outer true) =
      some (mark { openBlock (free (':' :: ' ' :: cs) (pos.advance k) tokens indent outer true)
        .blockMapping with keyAllowed := true } 1 .value) := rfl
  rw [free, lexeme_colon (.inl rfl), ← free, hvalue, openBlock_same _ _ hcolumn]
  rfl

-- ## Scalars

/-- The candidate that is remembered where a scalar begins. -/
def candidateAt (tokens : List Token) (indent : Int) (pos : Position) (allowed : Bool) :
    Option KeyCandidate :=
  if allowed then some ⟨tokens.length, pos, indent == pos.column⟩ else none

theorem stale_candidateAt {line : Nat} (hcolumn : indent < pos.column) (hline : pos.line < line) :
    Stale line (candidateAt tokens indent pos allowed) := by
  intro c hc
  unfold candidateAt at hc
  split at hc
  · cases hc
    exact ⟨beq_false_of_ne (by omega), hline⟩
  · cases hc

theorem saveCandidate_free (cs : List Char) :
    (free cs pos tokens indent outer allowed).saveCandidate =
      some ⟨⟨cs, pos⟩, tokens, indent, outer, [candidateAt tokens indent pos allowed], allowed⟩ := by
  cases allowed <;> rfl

theorem word_free {cs : List Char} {read : Cursor → Option (Token × Cursor)} {t : Token}
    {cursor : Cursor} (h : read ⟨cs, pos⟩ = some (t, cursor)) :
    (free cs pos tokens indent outer allowed).word read =
      some ⟨cursor, t :: tokens, indent, outer, [candidateAt tokens indent pos allowed], false⟩ := by
  rw [word, saveCandidate_free]
  simp only [Option.bind_eq_bind, Option.bind_some, h]
  rfl

theorem lexeme_single {cs : List Char} {text : String} {cursor : Cursor}
    (h : scanSingle cs pos.advance .none [] = some (text, cursor)) :
    (free ('\'' :: cs) pos tokens indent outer allowed).lexeme =
      some ⟨cursor, .scalar .singleQuoted text :: tokens, indent, outer,
        [candidateAt tokens indent pos allowed], false⟩ := by
  rw [lexeme, if_neg (by simp [free]), if_neg (by simp [free, atDocumentMark])]
  refine (word_free ?_ :)
  simp only [h, Option.map_some]

theorem lexeme_double {cs : List Char} {text : String} {cursor : Cursor}
    (h : scanDouble cs pos.advance .content .none [] = some (text, cursor)) :
    (free ('"' :: cs) pos tokens indent outer allowed).lexeme =
      some ⟨cursor, .scalar .doubleQuoted text :: tokens, indent, outer,
        [candidateAt tokens indent pos allowed], false⟩ := by
  rw [lexeme, if_neg (by simp [free]), if_neg (by simp [free, atDocumentMark])]
  refine (word_free ?_ :)
  simp only [h, Option.map_some]

theorem startsLexeme_of_isPlain {first : Char} {cs : List Char} (h : IsPlain first cs) :
    startsLexeme first = true := by
  have hprintable := h.printable first List.mem_cons_self
  have hbreak := h.oneLine first List.mem_cons_self
  have hspace : isSpace first = false := by
    rw [← Bool.not_eq_true, isSpace_iff hprintable]
    exact h.begins.2
  have hcomment : first ≠ '#' := by
    rintro rfl
    exact absurd h.begins.1 (by decide)
  have hmark : first ≠ byteOrderMark := by
    rintro rfl
    exact absurd hprintable (by decide)
  simp [startsLexeme, isGap, hbreak, hspace, hcomment, hmark]

theorem beginsPlain_of_isPlain {first : Char} {cs : List Char} (h : IsPlain first cs)
    (tail : List Char) : beginsPlain false (first :: (cs ++ tail)) = true := by
  have hmark := h.begins.1
  have happart : first = '?' ∨ first = ':' ∨ first = '-' → endsWord (cs ++ tail) = false :=
    fun hc => endsWord_append (h.apart hc) tail
  obtain ⟨hspace, hbreak, -, -⟩ := not_gap_of_startsLexeme (startsLexeme_of_isPlain h)
  unfold beginsPlain
  split
  · rename_i heq
    cases heq
  · rename_i rest heq
    obtain ⟨rfl, rfl⟩ := List.cons.inj heq
    have hrest := happart (.inr (.inr rfl))
    cases hcs : cs ++ tail with
    | nil => rfl
    | cons d ds =>
        rw [hcs, endsWord, isGap, Bool.or_eq_false_iff] at hrest
        simp [hrest.1]
  · rename_i c rest _ heq
    obtain ⟨rfl, rfl⟩ := List.cons.inj heq
    split
    · rename_i hc
      simp only [Bool.or_eq_true, beq_iff_eq] at hc
      rw [happart (hc.imp_right Or.inl)]
      rfl
    · simp [isLeadingMark] at hmark
      simp [isGap, hspace, hbreak, hmark]

/-- A plain scalar is none of the other lexemes. -/
theorem lexeme_plain {first : Char} {cs tail : List Char} (h : IsPlain first cs)
    (hstart : pos.column = 0 → atDocumentMark (first :: (cs ++ tail)) = false) :
    (free (first :: (cs ++ tail)) pos tokens indent outer allowed).lexeme =
      (free (first :: (cs ++ tail)) pos tokens indent outer allowed).plain := by
  have hmark := h.begins.1
  have hpercent : first ≠ '%' := by
    rintro rfl
    exact absurd hmark (by decide)
  have happart : first = '?' ∨ first = ':' ∨ first = '-' → endsWord (cs ++ tail) = false :=
    fun hc => endsWord_append (h.apart hc) tail
  have hbegins := beginsPlain_of_isPlain h tail
  rw [lexeme, if_neg (by simp [free, hpercent]), if_neg]
  · generalize hs : free (first :: (cs ++ tail)) pos tokens indent outer allowed = s
    have hrest : s.cursor.rest = first :: (cs ++ tail) := by rw [← hs]; rfl
    have hflow : s.inFlow = false := by rw [← hs]; rfl
    simp only [hrest, hflow]
    -- None of the characters that begin another lexeme begins a plain scalar.
    split
    all_goals first
      | exact absurd hmark (by decide)
      | skip
    rw [if_neg, if_neg, if_neg, if_neg, if_neg, if_pos hbegins]
    · rintro ⟨rfl, -⟩
      exact absurd hmark (by decide)
    · rintro ⟨rfl, -⟩
      exact absurd hmark (by decide)
    · rintro ⟨hc, hword⟩
      rw [happart (.inr (.inl hc))] at hword
      simp at hword
    · rintro ⟨hc, hword⟩
      rw [happart (.inl hc)] at hword
      simp at hword
    · rintro ⟨hc, hword⟩
      rw [happart (.inr (.inr hc))] at hword
      simp at hword
  · rintro ⟨hcolumn, hdoc⟩
    have hdoc' : atDocumentMark (first :: (cs ++ tail)) = true := hdoc
    rw [hstart hcolumn] at hdoc'
    cases hdoc'

theorem settle_begun {c : Char} (hc : startsLexeme c = true) (hcolumn : indent ≤ pos.column)
    (cs : List Char) : (free (c :: cs) pos tokens indent outer allowed).settle =
      some (free (c :: cs) pos tokens indent outer allowed) :=
  settle_free 0 hc hcolumn cs

/-- A scalar between quotes as a value, with the end of its line. -/
theorem leads_word {c : Char} {cs : List Char} {pos' : Position} {t : Token}
    (hc : startsLexeme c = true) (hcolumn : indent < pos.column) (h : Follows indent rest)
    (hline : pos.line ≤ pos'.line)
    (hlexeme : (free (c :: cs) pos tokens indent outer allowed).lexeme =
      some ⟨⟨'\n' :: rest, pos'⟩, t :: tokens, indent, outer,
        [candidateAt tokens indent pos allowed], false⟩)
    (hlength : rest.length < cs.length) :
    Leads (free (c :: cs) pos tokens indent outer allowed)
      (free rest pos'.newLine (t :: tokens) indent outer true) :=
  (leads_of_lexeme (settle_begun hc (Int.le_of_lt hcolumn) cs) hlexeme
    (Nat.succ_lt_succ hlength)).trans (leads_feed (stale_candidateAt hcolumn (Nat.lt_succ_of_le hline)) h)

theorem plain_free {cs : List Char} {p : PlainScalar}
    (h : scanPlain false (indent + 1) cs pos .none [] = some p) :
    (free cs pos tokens indent outer allowed).plain =
      some ⟨p.cursor, .scalar .plain p.text :: tokens, indent, outer,
        [candidateAt tokens indent pos allowed], p.endedLine⟩ := by
  rw [plain, saveCandidate_free]
  change (scanPlain false (indent + 1) cs pos .none []).bind _ = _
  rw [h]
  rfl

/-- A plain scalar as a value, with the end of its line. -/
theorem leads_plain {first : Char} {cs : List Char} (hplain : IsPlain first cs)
    (hcolumn : indent < pos.column) (hpos : 0 < pos.column) (h : Follows indent rest) :
    ∃ pos', pos'.column = 0 ∧
      Leads (free (first :: (cs ++ '\n' :: rest)) pos tokens indent outer allowed)
        (free rest pos' (.scalar .plain (String.ofList (first :: cs)) :: tokens) indent outer
          true) := by
  have hread : scanPlain false (indent + 1) (first :: (cs ++ '\n' :: rest)) pos .none [] =
      some ⟨String.ofList (first :: cs),
        (toLexeme false rest (pos.advance (cs.length + 1)).newLine false true).1, true⟩ := by
    rw [scanPlain_text hplain (fun h => absurd h (Nat.ne_of_gt hpos)) (by omega), scanPlain_feed,
      List.reverse_reverse]
    rwa [Int.add_sub_cancel]
  have hlexeme : (free (first :: (cs ++ '\n' :: rest)) pos tokens indent outer allowed).lexeme =
      some ⟨(toLexeme false rest (pos.advance (cs.length + 1)).newLine false true).1,
        .scalar .plain (String.ofList (first :: cs)) :: tokens, indent, outer,
        [candidateAt tokens indent pos allowed], true⟩ :=
    (lexeme_plain hplain (fun h => absurd h (Nat.ne_of_gt hpos))).trans (plain_free hread)
  refine ⟨(pos.advance (cs.length + 1)).newLine, rfl,
    (leads_of_lexeme (settle_begun (startsLexeme_of_isPlain hplain) (Int.le_of_lt hcolumn) _) hlexeme
      ?_).trans (leads_skipped (stale_candidateAt hcolumn (Nat.lt_succ_self pos.line)) h rfl)⟩
  have hlength := length_toLexeme_le false rest (pos.advance (cs.length + 1)).newLine false true
  simp only [free, List.length_cons, List.length_append]
  omega

theorem lexeme_bar (cs : List Char) :
    (free ('|' :: cs) pos tokens indent outer allowed).lexeme =
      (free ('|' :: cs) pos tokens indent outer allowed).block true := by
  rw [lexeme, if_neg (by simp [free]), if_neg (by simp [free, atDocumentMark])]
  rfl

theorem settle_bar (cs : List Char) (hcolumn : indent ≤ pos.column) :
    (free ('|' :: cs) pos tokens indent outer allowed).settle =
      some (free ('|' :: cs) pos tokens indent outer allowed) :=
  settle_begun (by decide) hcolumn cs

/-- A block that is read as a value. -/
theorem leads_block {body : List Char} {text : String} {pos' : Position}
    (hread : scanBlock true indent ⟨body, pos.advance⟩ =
      some (text, (toLexeme false rest pos' false true).1)) (hpos' : pos'.column = 0)
    (hcolumn : indent ≤ pos.column) (h : Follows indent rest) (hlength : rest.length ≤ body.length) :
    Leads (free ('|' :: body) pos tokens indent outer allowed)
      (free rest pos' (.scalar .literal text :: tokens) indent outer true) := by
  have hlexeme : (free ('|' :: body) pos tokens indent outer allowed).lexeme =
      some ⟨(toLexeme false rest pos' false true).1, .scalar .literal text :: tokens, indent, outer,
        [none], true⟩ := by
    rw [lexeme_bar]
    change (scanBlock true indent ⟨body, pos.advance⟩).bind _ = _
    rw [hread]
    rfl
  refine (leads_of_lexeme (settle_bar body hcolumn) hlexeme ?_).trans
    (leads_skipped (fun c hc => absurd hc (by simp)) h hpos')
  have hrest := length_toLexeme_le false rest pos' false true
  simp only [free, List.length_cons]
  omega

/-- A block that cannot be read. -/
theorem stuck_block {body : List Char} (hread : scanBlock true indent ⟨body, pos.advance⟩ = none)
    (hcolumn : indent ≤ pos.column) :
    Stuck (free ('|' :: body) pos tokens indent outer allowed) := by
  refine stuck_of_lexeme (settle_bar body hcolumn) (List.cons_ne_nil _ _) ?_
  rw [lexeme_bar]
  change (scanBlock true indent ⟨body, pos.advance⟩).bind _ = _
  rw [hread]
  rfl

/-- A text in double quotes as a value, with the end of its line. -/
theorem leads_double {code : Char → List Char} {s : String}
    (hcode : ∀ c ∈ s.toList, Escape c (code c)) (hcolumn : indent < pos.column)
    (h : Follows indent rest) :
    ∃ pos', pos'.column = 0 ∧
      Leads (free ('"' :: (s.toList.flatMap code ++ '"' :: '\n' :: rest)) pos tokens indent outer
          allowed)
        (free rest pos' (.scalar .doubleQuoted s :: tokens) indent outer true) := by
  have hread := scanDouble_body hcode ('\n' :: rest)
    (show 0 < pos.advance.column from Nat.succ_pos _) [] []
  rw [List.append_nil, List.reverse_nil, List.nil_append, String.ofList_toList] at hread
  refine ⟨(pos.advance.advance ((s.toList.flatMap code).length + 1)).newLine, rfl, ?_⟩
  refine leads_word (by decide) hcolumn h (Nat.le_refl _) (lexeme_double hread) ?_
  simp only [List.length_append, List.length_cons]
  omega

/-- A text as a value, in whatever style it is written, with the end of its line. -/
theorem leads_scalarText (s : String) {n : Nat} (hindent : 0 ≤ indent)
    (hn : (n : Int) = indent + 2) (hcolumn : indent < pos.column) (h : Follows indent rest) :
    ∃ pos', pos'.column = 0 ∧
      Leads (free (scalarText n s ++ rest) pos tokens indent outer allowed)
        (free rest pos' (.scalar (styleOf s) s :: tokens) indent outer true) := by
  have hpos : 0 < pos.column := by omega
  unfold scalarText
  -- Each style has a scanner of its own; what these read is one lexeme.
  cases hstyle : styleOf s with
  | plain =>
      obtain ⟨first, cs, hs, hplain, -⟩ := isPlain_of_styleOf hstyle
      have hword : s = String.ofList (first :: cs) := by rw [← hs, String.ofList_toList]
      simp only [scalarIn, hs, List.cons_append, List.append_assoc, List.nil_append]
      rw [hword]
      exact leads_plain hplain hcolumn hpos h
  | singleQuoted =>
      have hrest : ('\n' :: rest).head? ≠ some '\'' := by simp
      obtain ⟨pos', hread, hline, -⟩ := scanSingle_body (show 0 < n by omega) hrest
        (isSingle_of_styleOf hstyle) (show 0 < pos.advance.column from Nat.succ_pos _)
      refine ⟨pos'.newLine, rfl, ?_⟩
      simp only [scalarIn, List.cons_append, List.append_assoc, List.nil_append]
      rw [String.ofList_toList] at hread
      refine leads_word (by decide) hcolumn h hline (lexeme_single hread) ?_
      simp only [List.length_append, List.length_cons]
      omega
  | doubleQuoted =>
      simp only [scalarIn, List.cons_append, List.append_assoc, List.nil_append]
      exact leads_double (fun c _ => escape_doubleEscaped c) hcolumn h
  | literal =>
      obtain ⟨pos', hread, hpos'⟩ := scanBlock_text (isBlock_of_styleOf hstyle) hindent hn h
        pos.advance
      rw [String.ofList_toList] at hread
      have hbody : scalarIn .literal n s.toList ++ rest = '|' ::
          ((literalHeader s.toList).drop 1 ++ '\n' :: (literalBody n s.toList true ++ rest)) := by
        rw [scalarIn, literalHeader_eq]
        simp
      rw [hbody]
      refine ⟨pos', hpos', leads_block hread hpos' (Int.le_of_lt hcolumn) h ?_⟩
      simp only [List.length_cons, List.length_append]
      omega
  | folded => exact absurd hstyle (styleOf_ne_folded s)

-- ## Keys

theorem atDocumentMark_of_isPlain {first : Char} {cs : List Char} (h : IsPlain first cs)
    (tail : List Char) : atDocumentMark (first :: (cs ++ ':' :: tail)) = false := by
  have hdashes := h.noDashes
  have hpoints := h.noPoints
  cases cs with
  | nil =>
      unfold atDocumentMark
      split <;> simp_all
  | cons d cs =>
      cases cs with
      | nil =>
          unfold atDocumentMark
          split <;> simp_all
      | cons e cs =>
          unfold atDocumentMark
          split <;> simp_all [List.isPrefixOf]

theorem not_isBreak_of_isSimpleKey {key : String} (h : isSimpleKey key = true) :
    ∀ c ∈ key.toList, isBreak c = false := by
  rw [isSimpleKey, Bool.and_eq_true, Bool.not_eq_true', List.any_eq_false] at h
  exact fun c hc => by simpa using h.1 c hc

theorem utf8ByteSize_of_isSimpleKey {key : String} (h : isSimpleKey key = true) :
    (String.ofList key.toList).utf8ByteSize ≤ 128 := by
  rw [isSimpleKey, Bool.and_eq_true, decide_eq_true_eq] at h
  rw [String.ofList_toList]
  exact h.2

/-- A plain key is read up to its colon. -/
theorem lexeme_plain_key (pos : Position) (tokens : List Token) (outer : List Int) {first : Char}
    {cs : List Char} (hplain : IsPlain first cs) (hcolumn : indent ≤ pos.column) {c : Char}
    (hc : c = ' ' ∨ c = '\n') (r : List Char) :
    (free (first :: (cs ++ ':' :: c :: r)) pos tokens indent outer true).lexeme =
      some ⟨⟨':' :: c :: r, pos.advance (cs.length + 1)⟩,
        .scalar .plain (String.ofList (first :: cs)) :: tokens, indent, outer,
        [candidateAt tokens indent pos true], false⟩ := by
  have hgap : endsWord (c :: r) = true := by
    rcases hc with rfl | rfl <;> rfl
  have hread : scanPlain false (indent + 1) (first :: (cs ++ ':' :: c :: r)) pos .none [] =
      some ⟨String.ofList (first :: cs), ⟨':' :: c :: r, pos.advance (cs.length + 1)⟩, false⟩ := by
    rw [scanPlain_text hplain (fun _ => atDocumentMark_of_isPlain hplain _) (by omega),
      scanPlain_colon hgap, List.reverse_reverse]
  rw [lexeme_plain hplain (fun _ => atDocumentMark_of_isPlain hplain _), plain_free hread]

/-- A simple key is read up to its colon, which comes before the candidate
    lapses. -/
theorem exists_lexeme_key (pos : Position) (tokens : List Token) (outer : List Int) {key : String}
    (hkey : isSimpleKey key = true) {n : Nat} (hn : 0 < n)
    (hcolumn : indent ≤ pos.column) {c : Char} (hc : c = ' ' ∨ c = '\n') (r : List Char) :
    ∃ first cs width, scalarIn (styleOf key) n key.toList = first :: cs ∧
      startsLexeme first = true ∧ width ≤ 1024 ∧
      (free (scalarIn (styleOf key) n key.toList ++ ':' :: c :: r) pos tokens indent outer
          true).lexeme =
        some ⟨⟨':' :: c :: r, pos.advance width⟩, .scalar (styleOf key) key :: tokens, indent, outer,
          [candidateAt tokens indent pos true], false⟩ := by
  have hline := not_isBreak_of_isSimpleKey hkey
  have hbytes := utf8ByteSize_of_isSimpleKey hkey
  have hlength : key.toList.length ≤ 128 := (length_le_utf8ByteSize key.toList).trans hbytes
  -- A simple key is so short that its colon comes in time, also where each character is escaped.
  cases hstyle : styleOf key with
  | plain =>
      obtain ⟨first, cs, hs, hplain, -⟩ := isPlain_of_styleOf hstyle
      have hword : key = String.ofList (first :: cs) := by rw [← hs, String.ofList_toList]
      rw [hs, List.length_cons] at hlength
      refine ⟨first, cs, cs.length + 1, by rw [scalarIn, hs], startsLexeme_of_isPlain hplain,
        by omega, ?_⟩
      rw [scalarIn, hs, List.cons_append, lexeme_plain_key pos tokens outer hplain hcolumn hc,
        ← hword]
  | singleQuoted =>
      have hrest : (':' :: c :: r).head? ≠ some '\'' := by simp
      obtain ⟨pos', hread, -, hplace⟩ := scanSingle_body hn hrest (isSingle_of_styleOf hstyle)
        (show 0 < pos.advance.column from Nat.succ_pos _)
      have hbody := length_singleBody_le n hline
      rw [String.ofList_toList, hplace hline, Position.advance_advance] at hread
      refine ⟨'\'', _, 1 + (singleBody n key.toList false).length, rfl, by decide, by omega, ?_⟩
      rw [scalarIn, List.cons_append, lexeme_single hread]
  | doubleQuoted =>
      have hread := scanDouble_body (fun c (_ : c ∈ key.toList) => escape_doubleEscaped c) (':' :: c :: r)
        (show 0 < pos.advance.column from Nat.succ_pos _) [] []
      have hbody := length_doubleEscaped_le key.toList
      rw [List.append_nil, List.reverse_nil, List.nil_append, String.ofList_toList,
        Position.advance_advance] at hread
      refine ⟨'"', _, 1 + ((key.toList.flatMap doubleEscaped).length + 1), rfl, by decide, by omega, ?_⟩
      simp only [scalarIn, List.cons_append, List.append_assoc, List.nil_append]
      exact lexeme_double hread
  | literal =>
      exact absurd (hline '\n' (isBlock_of_styleOf hstyle).feed) (by decide)
  | folded => exact absurd hstyle (styleOf_ne_folded key)

/-- The colon behind a simple key. If the key stands deeper than the innermost
    collection, it opens a mapping. -/
theorem leads_key_colon {t : Token} {width : Nat} (hcolumn : indent ≤ pos.column)
    (hwidth : width ≤ 1024) {c : Char} (hc : c = ' ' ∨ c = '\n') (r : List Char) :
    Leads ⟨⟨':' :: c :: r, pos.advance width⟩, t :: tokens, indent, outer,
        [candidateAt tokens indent pos true], false⟩
      (free (c :: r) (pos.advance (width + 1))
        (.value :: t :: .key :: (if indent < pos.column then .blockMapping :: tokens else tokens))
        pos.column (if indent < pos.column then indent :: outer else outer) false) := by
  -- The candidate has not lapsed: the colon is on its line and near enough.
  have hlapsed : lapsed (pos.advance width) ⟨tokens.length, pos, indent == pos.column⟩ = false := by
    rw [← Bool.not_eq_true]
    intro h
    simp [lapsed] at h
    omega
  have hdrop : dropLapsed ⟨⟨':' :: c :: r, pos.advance width⟩, t :: tokens, indent, outer,
      [candidateAt tokens indent pos true], false⟩ =
      some ⟨⟨':' :: c :: r, pos.advance width⟩, t :: tokens, indent, outer,
        [candidateAt tokens indent pos true], false⟩ := by
    simp [dropLapsed, candidateAt, hlapsed]
  have hsettle : settle ⟨⟨':' :: c :: r, pos.advance width⟩, t :: tokens, indent, outer,
      [candidateAt tokens indent pos true], false⟩ =
      some ⟨⟨':' :: c :: r, pos.advance width⟩, t :: tokens, indent, outer,
        [candidateAt tokens indent pos true], false⟩ := by
    rw [settle, skipGap_single, toLexeme_start (by decide), hdrop, Option.map_some]
    refine congrArg some (closeBlocks_of_le ?_)
    change indent ≤ ((pos.advance width).column : Int)
    rw [Position.advance_column]
    omega
  refine leads_of_lexeme hsettle ?_ (Nat.lt_succ_self _)
  rw [lexeme_colon hc]
  -- The tokens that say that this is a key go in before it, where the candidate has been noted.
  by_cases hdeeper : indent < pos.column
  · simp [value, candidateAt, opensBlock, inFlow, emitAt, enter, mark, skip, emit, Cursor.skip, free,
      hdeeper]
  · have hsame : indent = pos.column := by omega
    simp [value, candidateAt, opensBlock, inFlow, emitAt, mark, skip, emit, Cursor.skip, free, hsame]

/-- A key of any form with its colon. -/
theorem leads_key_of_lexeme {first : Char} {cs : List Char} {width : Nat} {t : Token}
    (hfirst : startsLexeme first = true) (hwidth : width ≤ 1024) {k column : Nat}
    (hk : pos.column + k = column) (hcolumn : indent ≤ column) {c : Char}
    (hc : c = ' ' ∨ c = '\n') {r : List Char}
    (hlexeme : (free (first :: (cs ++ ':' :: c :: r)) (pos.advance k) tokens indent outer
        true).lexeme =
      some ⟨⟨':' :: c :: r, (pos.advance k).advance width⟩, t :: tokens, indent, outer,
        [candidateAt tokens indent (pos.advance k) true], false⟩) :
    ∃ pos', column < pos'.column ∧
      Leads (free (spaces k ++ first :: (cs ++ ':' :: c :: r)) pos tokens indent outer true)
        (free (c :: r) pos' (.value :: t :: .key ::
            (if indent < column then .blockMapping :: tokens else tokens))
          column (if indent < column then indent :: outer else outer) false) := by
  subst hk
  refine ⟨(pos.advance k).advance (width + 1), by simp only [Position.advance_column]; omega, ?_⟩
  refine (leads_of_lexeme (settle_free k hfirst hcolumn _) hlexeme ?_).trans
    (leads_key_colon hcolumn hwidth hc r)
  simp only [free, List.length_cons, List.length_append]
  omega

/-- A simple key with its colon. -/
theorem leads_key (tokens : List Token) (outer : List Int) {key : String}
    (hkey : isSimpleKey key = true) {n : Nat} (hn : 0 < n) {k column : Nat}
    (hk : pos.column + k = column) (hcolumn : indent ≤ column) {c : Char}
    (hc : c = ' ' ∨ c = '\n') (r : List Char) :
    ∃ pos', column < pos'.column ∧
      Leads (free (spaces k ++ (scalarIn (styleOf key) n key.toList ++ ':' :: c :: r)) pos tokens
          indent outer true)
        (free (c :: r) pos' (.value :: .scalar (styleOf key) key :: .key ::
            (if indent < column then .blockMapping :: tokens else tokens))
          column (if indent < column then indent :: outer else outer) false) := by
  obtain ⟨first, cs, width, htext, hfirst, hwidth, hlexeme⟩ := exists_lexeme_key
    (pos.advance k) tokens outer hkey hn (hk ▸ hcolumn) hc r
  rw [htext, List.cons_append] at hlexeme ⊢
  exact leads_key_of_lexeme hfirst hwidth hk hcolumn hc hlexeme

-- ## Empty Collections

theorem lexeme_openFlow (cs : List Char) (t : Token) :
    (free cs pos tokens indent outer allowed).openFlow t =
      some ⟨⟨cs.drop 1, pos.advance⟩, t :: tokens, indent, outer,
        [none, candidateAt tokens indent pos allowed], true⟩ := by
  rw [openFlow, saveCandidate_free]
  rfl

/-- An empty collection as a value, with the end of its line. -/
theorem leads_empty {o e : Char} {t t' : Token} (hcolumn : indent < pos.column)
    (h : Follows indent rest) (hchars : (o = '[' ∧ e = ']' ∧ t = .flowSequence ∧ t' = .flowSequenceEnd) ∨
      (o = '\x7b' ∧ e = '\x7d' ∧ t = .flowMapping ∧ t' = .flowMappingEnd)) :
    Leads (free (o :: e :: '\n' :: rest) pos tokens indent outer allowed)
      (free rest (pos.advance 2).newLine (t' :: t :: tokens) indent outer true) := by
  -- Three steps: the opening character, the closing one, and the end of the line.
  have hstart : startsLexeme o = true ∧ startsLexeme e = true := by
    rcases hchars with ⟨rfl, rfl, -⟩ | ⟨rfl, rfl, -⟩ <;> decide
  have hopen : (free (o :: e :: '\n' :: rest) pos tokens indent outer allowed).lexeme =
      some ⟨⟨e :: '\n' :: rest, pos.advance⟩, t :: tokens, indent, outer,
        [none, candidateAt tokens indent pos allowed], true⟩ := by
    rcases hchars with ⟨rfl, rfl, rfl, rfl⟩ | ⟨rfl, rfl, rfl, rfl⟩ <;>
      · rw [lexeme, if_neg (by simp [free]), if_neg (by simp [free, atDocumentMark])]
        exact lexeme_openFlow _ _
  have hsettle : settle ⟨⟨e :: '\n' :: rest, pos.advance⟩, t :: tokens, indent, outer,
      [none, candidateAt tokens indent pos allowed], true⟩ =
      some ⟨⟨e :: '\n' :: rest, pos.advance⟩, t :: tokens, indent, outer,
        [none, candidateAt tokens indent pos allowed], true⟩ := by
    have hrequired : (indent == (pos.column : Int)) = false := beq_false_of_ne (by omega)
    cases allowed <;>
      simp [settle, skipGap, inFlow, toLexeme_start hstart.2, dropLapsed, candidateAt, lapsed,
        hrequired, closeBlocks]
  have hclose : lexeme ⟨⟨e :: '\n' :: rest, pos.advance⟩, t :: tokens, indent, outer,
      [none, candidateAt tokens indent pos allowed], true⟩ =
      some ⟨⟨'\n' :: rest, pos.advance 2⟩, t' :: t :: tokens, indent, outer,
        [candidateAt tokens indent pos allowed], false⟩ := by
    rcases hchars with ⟨rfl, rfl, rfl, rfl⟩ | ⟨rfl, rfl, rfl, rfl⟩ <;>
      · rw [lexeme, if_neg (by simp), if_neg (by simp [atDocumentMark])]
        rfl
  exact ((leads_of_lexeme (settle_begun hstart.1 (Int.le_of_lt hcolumn) _) hopen
    (Nat.lt_succ_self _)).trans (leads_of_lexeme hsettle hclose (Nat.lt_succ_self _))).trans
    (leads_feed (stale_candidateAt hcolumn (Nat.lt_succ_self _)) h)

end

-- ## Whole Texts

/-- A scan that comes to the end of the text with nothing left open succeeds. -/
theorem run_of_leads {cs : List Char} {pos : Position} {tokens : List Token}
    (h : Leads (free cs .start [] (-1) [] true) (free [] pos tokens (-1) [] true)) :
    (start cs).run (cs.length + 1) = some (.streamEnd :: tokens).reverse := by
  obtain ⟨n, hn, hrun⟩ := h
  have hlength : n ≤ cs.length :=
    Nat.le_trans (Nat.le_of_add_right_le hn) (left_le (free cs .start [] (-1) [] true))
  have hsettle : (free [] pos tokens (-1) [] true).settle =
      some (free [] pos tokens (-1) [] true) := rfl
  have hfinish : (free [] pos tokens (-1) [] true).dropCandidate =
      some (free [] pos tokens (-1) [] true) := rfl
  have hfuel := hrun (cs.length - n)
  rw [Nat.add_sub_cancel' hlength, run_succ (cs.length - n), hsettle, Option.bind_some, hfinish]
    at hfuel
  exact hfuel

/-- A scan that comes to no end fails. -/
theorem run_of_stuck {cs : List Char} (h : Stuck (free cs .start [] (-1) [] true)) :
    (start cs).run (cs.length + 1) = none := by
  obtain ⟨n, hn, hfails⟩ := h
  have hlength : n ≤ cs.length := Nat.le_trans hn (left_le (free cs .start [] (-1) [] true))
  have hfuel := hfails (cs.length - n)
  rw [Nat.add_sub_cancel' hlength] at hfuel
  exact hfuel

end Scan

end Yaml

end SimStudio
