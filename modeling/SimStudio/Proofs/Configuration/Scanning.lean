import SimStudio.Proofs.Configuration.Prose
import SimStudio.Proofs.Text.Quoting
import SimStudio.Proofs.Yaml.Readable

/-!
# Prompts Scanned

What the scanner of YAML makes of a prompt and of its key.

A prompt that is written as a block is a literal block of YAML in all its parts:
its lines are those that `Yaml.literalBody` lays out, and its header says what is
kept at the end. Only in what the header says of the depth the two differ. A
prompt tells it where its first line that is not empty begins with a space, and
otherwise the scanner finds it out from that line, unless a tab begins it.

In quotes each character stands for itself, or behind a backslash in a way that
YAML knows. So prompts that are no blocks are always scanned, and so are keys,
which are identifiers or stand in quotes.

## Main definitions

* `promptText`: What stands behind the key of a prompt.
* `isMeasured`: A prompt of which the scanner finds the depth.
* `isLegible`: A prompt of characters that a reader accepts.
* `FieldKey`: A key that YAML reads as such.

## Theorems

* `toList_renderLines_proseLines`: The lines of a prompt are those of a literal
  block.
* `leads_prompt`, `stuck_prompt`: A prompt is scanned if it is measured.
* `leads_keyText`: A key is scanned.
* `all_isReadable_promptText`: A prompt is readable if it is legible.
-/

namespace SimStudio

open Yaml (isBreak spaces)

-- ## Lines of a Block

theorem toList_renderLines_cons (l : Line) (lines : List Line) :
    (renderLines (l :: lines)).toList = l.render.toList ++ '\n' :: (renderLines lines).toList := by
  simp [toList_renderLines]

/-- An entry in the column of its level. -/
theorem toList_renderLines_entry (level : Nat) (line : String) (lines : List Line) :
    (renderLines (.entry level false line :: lines)).toList =
      spaces (2 * level) ++ (line.toList ++ '\n' :: (renderLines lines).toList) := by
  rw [toList_renderLines_cons, Line.toList_render]
  simp [indented, spaces]

/-- An entry that begins an item, with the mark of the item two columns to the left. -/
theorem toList_renderLines_markFirst (level : Nat) (line : String) (lines : List Line) :
    (renderLines (markFirst (.entry (level + 1) false line :: lines))).toList =
      spaces (2 * level) ++ '-' :: ' ' :: (line.toList ++ '\n' :: (renderLines lines).toList) := by
  rw [markFirst, toList_renderLines_cons, Line.mark, Line.toList_render]
  simp [indented, spaces]

theorem toList_renderLines_append (xs ys : List Line) :
    (renderLines (xs ++ ys)).toList = (renderLines xs).toList ++ (renderLines ys).toList := by
  simp [toList_renderLines]

theorem toList_renderLines_blanks (k : Nat) :
    (renderLines (List.replicate k .blank)).toList = List.replicate k '\n' := by
  induction k with
  | zero => rfl
  | succ k ih => rw [List.replicate_succ, toList_renderLines_cons, ih]; rfl

namespace Yaml

variable {run : List Char}

theorem literalBody_run (n : Nat) (hrun : ∀ c ∈ run, isBreak c = false) (rest : List Char) :
    literalBody n (run ++ rest) false = run ++ literalBody n rest false := by
  induction run with
  | nil => rfl
  | cons c run ih =>
      rw [List.cons_append, literalBody, hrun c List.mem_cons_self,
        ih fun d hd => hrun d (List.mem_cons_of_mem _ hd)]
      rfl

/-- A line of a block, as it is written. -/
theorem literalBody_line (level : Nat) (hrun : ∀ c ∈ run, isBreak c = false) (rest : List Char) :
    literalBody (2 * level) (run ++ '\n' :: rest) true =
      (blockLine level run).render.toList ++ '\n' :: literalBody (2 * level) rest true := by
  rw [toList_render_blockLine]
  cases run with
  | nil => rfl
  | cons c run =>
      rw [List.cons_append, literalBody, hrun c List.mem_cons_self,
        literalBody_run _ fun d hd => hrun d (List.mem_cons_of_mem _ hd)]
      simp [literalBody, indented, spaces]

/-- The last line of a block ends where it is written, if not in the text. -/
theorem literalBody_concat (n : Nat) (cs : List Char) {c : Char} (hbreak : isBreak c = false)
    (newLine : Bool) :
    literalBody n (cs ++ [c] ++ ['\n']) newLine = literalBody n (cs ++ [c]) newLine := by
  induction cs generalizing newLine with
  | nil => simp [literalBody, hbreak]
  | cons d cs ih => rw [List.cons_append, List.cons_append, literalBody, literalBody, ih, ih]

theorem literalBody_blanks (n k : Nat) :
    literalBody n (List.replicate k '\n') true = List.replicate k '\n' := by
  induction k with
  | zero => rfl
  | succ k ih => rw [List.replicate_succ, literalBody, if_pos (by decide), ih]

/-- The lines of a block are those of its text up to a line end. -/
theorem literalBody_lines (level : Nat) {runs : List (List Char)}
    (hruns : ∀ run ∈ runs, ∀ c ∈ run, isBreak c = false) (hne : runs ≠ []) (rest : List Char) :
    literalBody (2 * level) (Text.join '\n' runs ++ '\n' :: rest) true =
      (renderLines (runs.map (blockLine level))).toList ++ literalBody (2 * level) rest true := by
  induction runs with
  | nil => exact absurd rfl hne
  | cons run runs ih =>
      have hrun := hruns run List.mem_cons_self
      rw [List.map_cons, toList_renderLines_cons]
      cases runs with
      | nil =>
          rw [show Text.join '\n' [run] = run by simp [Text.join], literalBody_line level hrun]
          simp [toList_renderLines]
      | cons run' runs =>
          rw [show Text.join '\n' (run :: run' :: runs) = run ++ '\n' :: Text.join '\n' (run' :: runs)
            by simp [Text.join, List.intercalate], List.append_assoc, List.cons_append,
            literalBody_line level hrun,
            ih (fun r hr => hruns r (List.mem_cons_of_mem _ hr)) (List.cons_ne_nil _ _)]
          simp

end Yaml

-- ## Blocks

/-- Of the characters of a block only line feeds end a line. -/
theorem eq_newline_of_isBlockSafe {cs : List Char} (h : isBlockSafe cs = true) {c : Char}
    (hc : c ∈ cs) (hbreak : isBreak c = true) : c = '\n' := by
  have hsafe := List.all_eq_true.mp h c hc
  simp only [isBreak, Bool.or_eq_true, beq_iff_eq] at hbreak
  rcases hbreak with (((rfl | rfl) | rfl) | rfl) | rfl
  · rfl
  all_goals exact absurd hsafe (by decide)

/-- A prompt that is written as a block has more than line ends, and of all characters
    that end a line it has line feeds only. -/
theorem isProse_iff (text : String) :
    isProse text = true ↔ proseBody text.toList ≠ [] ∧ isBlockSafe text.toList = true := by
  simp [isProse]

theorem mem_of_mem_proseBody {cs : List Char} {c : Char} (h : c ∈ proseBody cs) : c ∈ cs := by
  rw [← proseBody_append cs]
  exact List.mem_append_left _ h

section

variable {text : String} (h : isProse text = true)
include h

theorem isBreak_of_mem_prose {c : Char} (hc : c ∈ text.toList) (hbreak : isBreak c = true) :
    c = '\n' :=
  eq_newline_of_isBlockSafe ((isProse_iff text).mp h).2 hc hbreak

theorem exists_proseBody_eq : ∃ before last, proseBody text.toList = before ++ [last] ∧
    last ≠ '\n' ∧ isBreak last = false := by
  have hne := ((isProse_iff text).mp h).1
  have hlast := getLast_proseBody_ne hne
  refine ⟨_, _, (List.dropLast_concat_getLast hne).symm, hlast, ?_⟩
  rw [← Bool.not_eq_true]
  exact fun hbreak =>
    hlast (isBreak_of_mem_prose h (mem_of_mem_proseBody (List.getLast_mem hne)) hbreak)

/-- The lines of a prompt are those of a literal block. -/
theorem toList_renderLines_proseLines (level : Nat) :
    (renderLines (proseLines level text)).toList =
      Yaml.literalBody (2 * level) text.toList true := by
  have hruns : ∀ run ∈ Text.split '\n' (proseBody text.toList), ∀ c ∈ run, isBreak c = false := by
    intro run hrun c hc
    rw [← Bool.not_eq_true]
    intro hbreak
    have hmem : c ∈ proseBody text.toList := by
      rw [← Text.join_split '\n' (proseBody text.toList)]
      exact Text.mem_intercalate_of_mem hrun hc
    rw [isBreak_of_mem_prose h (mem_of_mem_proseBody hmem) hbreak] at hc
    exact Text.not_mem_of_mem_split _ run hrun hc
  have hlines := Yaml.literalBody_lines level hruns (Text.split_ne_nil _ _)
  rw [Text.join_split] at hlines
  rw [proseLines, toList_renderLines_append, toList_renderLines_blanks]
  conv_rhs => rw [← proseBody_append text.toList]
  -- The last line of the block has an end, which is the first one behind the text, if
  -- there is any.
  cases proseTrailing text.toList with
  | zero =>
      obtain ⟨before, last, hbody, -, hbreak⟩ := exists_proseBody_eq h
      have hopen := Yaml.literalBody_concat (2 * level) before hbreak true
      rw [← hbody] at hopen
      simp only [List.replicate_zero, List.append_nil]
      rw [← hopen, hlines []]
      rfl
  | succ k =>
      rw [List.replicate_succ, hlines, Yaml.literalBody_blanks, Nat.add_sub_cancel]

/-- The header keeps the line ends behind the text as a literal block does. -/
theorem toList_chomping : (chomping (proseTrailing text.toList)).toList =
    Yaml.chompingSign (Yaml.headerChomping text.toList) := by
  obtain ⟨before, last, hbody, -, hbreak⟩ := exists_proseBody_eq h
  -- Seen from the end: the line ends, and then a character that is none.
  have hreverse : text.toList.reverse =
      List.replicate (proseTrailing text.toList) '\n' ++ last :: before.reverse := by
    conv_lhs => rw [← proseBody_append text.toList, hbody]
    simp
  rw [Yaml.headerChomping, hreverse]
  cases proseTrailing text.toList with
  | zero => simp [chomping, hbreak, Yaml.chompingSign]
  | succ k =>
      cases k with
      | zero => simp [chomping, hbreak, Yaml.chompingSign]
      | succ k => simp [chomping, Yaml.chompingSign, List.replicate_succ]

end

/-- The first character of a text behind line ends. -/
def leadChar? (cs : List Char) : Option Char := (cs.dropWhile (· == '\n')).head?

/-- A header tells the depth where the first line with text begins with a space. -/
theorem depthMark_split (cs : List Char) :
    depthMark (Text.split '\n' cs) = if leadChar? cs = some ' ' then "2" else "" := by
  induction cs with
  | nil => rfl
  | cons c cs ih =>
      rw [Text.split]
      split
      · rename_i hc
        rw [hc]
        exact ih
      · rename_i hc
        have hlead : leadChar? (c :: cs) = some c := by
          simp [leadChar?, hc]
        have hmark : ∀ run rest, depthMark ((c :: run) :: rest) = if c = ' ' then "2" else "" := by
          intro run rest
          simp only [depthMark, List.find?, List.isEmpty_cons, Bool.not_false]
          split <;> simp_all
        simp only [hlead, Option.some.injEq]
        split
        · exact hmark [] []
        · exact hmark _ _

@[simp]
theorem leadChar?_replicate (k : Nat) : leadChar? (List.replicate k '\n') = none := by
  simp [leadChar?]

theorem leadChar?_append (xs ys : List Char) :
    leadChar? (xs ++ ys) = (leadChar? xs).or (leadChar? ys) := by
  induction xs with
  | nil => rfl
  | cons x xs ih =>
      by_cases hx : x = '\n'
      · subst hx
        exact ih
      · simp [leadChar?, hx]

theorem leadChar?_proseBody (cs : List Char) : leadChar? (proseBody cs) = leadChar? cs := by
  conv_rhs => rw [← proseBody_append cs, leadChar?_append, leadChar?_replicate, Option.or_none]

/-- A prompt that is written as a block has line ends in front, if anything, and then a
    character that is none. -/
theorem exists_leadChar?_eq {text : String} (h : isProse text = true) :
    ∃ k c r, text.toList = List.replicate k '\n' ++ c :: r ∧ leadChar? text.toList = some c ∧
      isBreak c = false := by
  obtain ⟨before, last, hbody, hlast, -⟩ := exists_proseBody_eq h
  have hne : leadChar? text.toList ≠ none := by
    rw [← leadChar?_proseBody, hbody, leadChar?_append]
    simp [leadChar?, hlast]
  obtain ⟨c, hc⟩ := Option.ne_none_iff_exists'.mp hne
  obtain ⟨r, hr⟩ := List.head?_eq_some_iff.mp hc
  have hsplit := List.takeWhile_append_dropWhile (p := (· == '\n')) (l := text.toList)
  rw [takeWhile_newline, hr] at hsplit
  refine ⟨_, c, r, hsplit.symm, hc, ?_⟩
  have hnewline : c ≠ '\n' := by
    have hhead := List.head?_dropWhile_not (· == '\n') text.toList
    rw [leadChar?] at hc
    rw [hc] at hhead
    simpa using hhead
  rw [← Bool.not_eq_true]
  exact fun hbreak => hnewline (isBreak_of_mem_prose h (hsplit ▸ by simp) hbreak)

-- ## Prompts

/-- A prompt from which the scanner can tell how deep its block is: the first line of
    the block that is not empty does not begin with a tab. -/
def isMeasured (text : String) : Bool := !(isProse text && leadChar? text.toList == some '\t')

/-- The style in which a prompt is written. -/
def promptStyle (text : String) : Yaml.ScalarStyle :=
  if isProse text then .literal else .doubleQuoted

/-- What stands behind the key of a prompt, its colon and a blank. -/
def promptText (level : Nat) (text : String) : List Char :=
  if isProse text then
    '|' :: ((if leadChar? text.toList == some ' ' then ['2'] else []) ++
      Yaml.chompingSign (Yaml.headerChomping text.toList) ++
        '\n' :: Yaml.literalBody (2 * (level + 1)) text.toList true)
  else '"' :: (text.toList.flatMap quotedChar ++ ['"', '\n'])

/-- A prompt is its key, a colon, and what stands behind them. -/
theorem exists_proseField_eq (level : Nat) (key text : String) :
    ∃ line lines, proseField level key text = .entry level false line :: lines ∧
      line.toList ++ '\n' :: (renderLines lines).toList =
        (keyText key).toList ++ ':' :: ' ' :: promptText level text := by
  rw [proseField_eq, promptText]
  split
  · rename_i hprose
    have hmark : (depthMark (Text.split '\n' (proseBody text.toList))).toList =
        if leadChar? text.toList == some ' ' then ['2'] else [] := by
      rw [depthMark_split, leadChar?_proseBody]
      by_cases hlead : leadChar? text.toList = some ' ' <;> simp [hlead]
    refine ⟨_, _, rfl, ?_⟩
    rw [toList_renderLines_proseLines hprose, proseHeader]
    simp [hmark, toList_chomping hprose]
  · refine ⟨_, _, rfl, ?_⟩
    simp [quote, toList_renderLines]

-- ## Scalars Scanned

open Yaml.Scan (free Leads Stuck candidateAt)

/-- In quotes every character stands in a way in which YAML reads it. -/
theorem escape_quotedChar (c : Char) : Yaml.Escape c (quotedChar c) := by
  unfold quotedChar
  split
  · exact .letter rfl (by decide) rfl
  · exact .letter rfl (by decide) rfl
  · exact .letter rfl (by decide) rfl
  · exact .letter rfl (by decide) rfl
  · exact .letter rfl (by decide) rfl
  · rename_i hquote hbackslash hfeed hreturn _
    split
    · rename_i hspecial
      refine .code rfl (by decide) (by decide) ?_
      simp only [Bool.or_eq_true, Text.isControl, isHazard, Bool.and_eq_true, decide_eq_true_eq,
        beq_iff_eq] at hspecial
      rcases hspecial with hcontrol | (rfl | rfl) | rfl
      · omega
      · decide
      · decide
      · decide
    · rename_i hsafe
      refine .plain ?_ hquote hbackslash
      rw [← Bool.not_eq_true]
      intro hbreak
      simp only [isBreak, Bool.or_eq_true, beq_iff_eq] at hbreak
      rcases hbreak with (((rfl | rfl) | rfl) | rfl) | rfl
      all_goals exact absurd rfl (by assumption)

section

variable {text : String} {level : Nat} {pos : Yaml.Position} {tokens : List Yaml.Token}
  {outer : List Int} {allowed : Bool} {rest : List Char}

/-- A prompt is scanned as its text, with the end of its last line. -/
theorem leads_prompt (h : isMeasured text = true) (hcolumn : 2 * level < pos.column)
    (hrest : Yaml.Follows (2 * level : Nat) rest) :
    ∃ pos', pos'.column = 0 ∧
      Leads (free (promptText level text ++ rest) pos tokens (2 * level : Nat) outer allowed)
        (free rest pos' (.scalar (promptStyle text) text :: tokens) (2 * level : Nat) outer true) := by
  rw [promptText, promptStyle]
  split
  · rename_i hprose
    obtain ⟨k, c, r, htext, hlead, hbreak⟩ := exists_leadChar?_eq hprose
    -- What begins the first line with text is a space, of which the header tells, or
    -- no blank.
    have htab' : c ≠ '\t' := by
      rintro rfl
      simp [isMeasured, hprose, hlead] at h
    have hlasts : ∀ c ∈ text.toList, Yaml.Lasts c := fun c hc hbreak => by
      rw [isBreak_of_mem_prose hprose hc hbreak]
      rfl
    obtain ⟨pos', hread, hpos'⟩ := Yaml.scanBlock_body (by simp [htext]) hlasts (by omega)
      (show ((2 * (level + 1) : Nat) : Int) = (2 * level : Nat) + 2 by omega) hrest pos.advance
      fun (hmark : (leadChar? text.toList == some ' ') = false) =>
        ⟨k, c, r, htext, by simpa [hlead] using hmark, htab', hbreak⟩
    rw [String.ofList_toList] at hread
    refine ⟨pos', hpos', ?_⟩
    rw [List.cons_append, List.append_assoc, List.cons_append]
    exact Yaml.Scan.leads_block hread hpos' (by omega) hrest (by simp; omega)
  · rw [List.cons_append, List.append_assoc, List.cons_append, List.singleton_append]
    exact Yaml.Scan.leads_double (fun c _ => escape_quotedChar c) (by omega) hrest

/-- A prompt that begins with a tab, as a block that does not tell its depth, is not
    scanned. -/
theorem stuck_prompt (h : isMeasured text = false) (hcolumn : 2 * level < pos.column) :
    Stuck (free (promptText level text ++ rest) pos tokens (2 * level : Nat) outer allowed) := by
  rw [isMeasured, Bool.not_eq_false', Bool.and_eq_true] at h
  obtain ⟨hprose, hlead⟩ := h
  obtain ⟨k, c, r, htext, hlead', -⟩ := exists_leadChar?_eq hprose
  have htab' : c = '\t' := by
    rw [hlead'] at hlead
    simpa using hlead
  subst htab'
  rw [promptText, if_pos hprose, hlead', if_neg (by decide), List.nil_append, List.cons_append,
    List.append_assoc, List.cons_append]
  refine Yaml.Scan.stuck_block ?_ (by omega)
  conv in Yaml.literalBody _ _ _ => rw [htext]
  exact Yaml.scanBlock_tab k r _ _ _

end

-- ## Keys

/-- The non-characters of the basic plane, which no reader of YAML accepts. -/
def isNoncharacter (c : Char) : Bool := c == '\ufffe' || c == '\uffff'

/-- A key that YAML reads as such: it is not too long, as it is written, and its
    characters are readable. -/
structure FieldKey (key : String) : Prop where
  short : (keyText key).length ≤ 1024
  readable : ∀ c ∈ key.toList, isNoncharacter c = false

/-- The style in which a key is written. -/
def keyStyle (key : String) : Yaml.ScalarStyle :=
  if isIdentifier key && !isReserved key then .plain else .doubleQuoted

theorem unmarked_of_isIdentifierMark {c : Char} (h : isIdentifierMark c = true) :
    Yaml.Unmarked c ∧ c ≠ '-' ∧ c ≠ '.' := by
  by_cases hline : c = '_'
  · subst hline
    exact ⟨⟨by decide, by decide, by decide, by decide, by decide, by decide, by decide⟩, by decide,
      by decide⟩
  · have hmark : c.isAlphanum = true := by
      simpa [isIdentifierMark, isIdentifierStart, hline, Char.isAlphanum] using h
    refine ⟨Yaml.unmarked_of_isNumberMark (by simp [isNumberMark, hmark]), ?_, ?_⟩ <;>
      · rintro rfl
        exact absurd hmark (by decide)

/-- An identifier can be plain. -/
theorem isPlain_of_isIdentifier {key : String} (h : isIdentifier key = true) :
    ∃ first cs, key.toList = first :: cs ∧ Yaml.IsPlain first cs := by
  have hmark : ∀ c ∈ key.toList, Yaml.Unmarked c ∧ c ≠ '-' ∧ c ≠ '.' := fun c hc =>
    unmarked_of_isIdentifierMark (isIdentifierMark_of_mem h hc)
  cases hcs : key.toList with
  | nil => simp [isIdentifier, hcs] at h
  | cons first cs =>
      rw [hcs] at hmark
      have hfirst := (hmark first List.mem_cons_self).2
      exact ⟨first, cs, rfl, Yaml.isPlain_of_unmarked (fun c hc => (hmark c hc).1)
        fun heq => heq.elim (absurd · hfirst.1) (absurd · hfirst.2)⟩

theorem quotedChar_of_isClean {c : Char} (hquote : c ≠ '"') (hbackslash : c ≠ '\\')
    (hclean : isClean c = true) : quotedChar c = [c] := by
  unfold quotedChar
  split
  · exact absurd rfl hquote
  · exact absurd rfl hbackslash
  · exact absurd hclean (by decide)
  · exact absurd hclean (by decide)
  · exact absurd hclean (by decide)
  · refine if_neg ?_
    simpa [isClean] using hclean

/-- An identifier needs no escapes in quotes. -/
theorem flatMap_quotedChar_of_isIdentifier {key : String} (h : isIdentifier key = true) :
    key.toList.flatMap quotedChar = key.toList := by
  have hchar : ∀ c ∈ key.toList, quotedChar c = [c] := by
    intro c hc
    have hmark := isIdentifierMark_of_mem h hc
    refine quotedChar_of_isClean ?_ ?_ (isClean_of_mem_identifier h hc) <;>
      · rintro rfl
        exact absurd hmark (by decide)
  rw [List.flatMap_congr hchar, List.flatMap_singleton']

theorem length_le_of_isReserved {key : String} (h : isReserved key = true) : key.length ≤ 5 := by
  have hlength : ∀ word : String, (key.toList.map Char.toLower == word.toList) = true →
      key.length = word.length := by
    intro word hword
    have hmap := congrArg List.length (beq_iff_eq.mp hword)
    rwa [List.length_map, String.length_toList, String.length_toList] at hmap
  simp only [isReserved, Bool.or_eq_true] at h
  rcases h with (h | h) | h
  all_goals exact (hlength _ h).trans_le (by decide)

/-- A short identifier is such a key. -/
theorem FieldKey.of_isIdentifier {key : String} (h : isIdentifier key = true)
    (hshort : key.length ≤ 1024) : FieldKey key := by
  refine ⟨?_, fun c hc => ?_⟩
  · rw [keyText]
    split
    · exact hshort
    · rename_i hquoted
      have hreserved : isReserved key = true := by simpa [h] using hquoted
      have hkey := length_le_of_isReserved hreserved
      rw [quote, flatMap_quotedChar_of_isIdentifier h, String.length_ofList, List.length_cons,
        List.length_append, String.length_toList, List.length_singleton]
      omega
  · have hmark := isIdentifierMark_of_mem h hc
    rw [isNoncharacter, Bool.or_eq_false_iff, beq_eq_false_iff_ne, beq_eq_false_iff_ne]
    refine ⟨?_, ?_⟩ <;>
      · rintro rfl
        exact absurd hmark (by decide)

section

variable {pos : Yaml.Position} {tokens : List Yaml.Token} {indent : Int} {outer : List Int}

/-- A key is read up to its colon. -/
theorem lexeme_keyText (pos : Yaml.Position) (tokens : List Yaml.Token) (outer : List Int)
    (key : String) (hcolumn : indent ≤ pos.column) {c : Char} (hc : c = ' ' ∨ c = '\n')
    (r : List Char) :
    (free ((keyText key).toList ++ ':' :: c :: r) pos tokens indent outer true).lexeme =
      some ⟨⟨':' :: c :: r, pos.advance (keyText key).length⟩,
        .scalar (keyStyle key) key :: tokens, indent, outer,
        [candidateAt tokens indent pos true], false⟩ := by
  rw [keyText, keyStyle]
  split
  · rename_i hkey
    obtain ⟨first, cs, hcs, hplain⟩ := isPlain_of_isIdentifier (Bool.and_eq_true_iff.mp hkey).1
    have hlength : key.length = cs.length + 1 := by
      rw [← String.length_toList, hcs, List.length_cons]
    rw [hcs, List.cons_append, Yaml.Scan.lexeme_plain_key pos tokens outer hplain hcolumn hc, ← hcs,
      String.ofList_toList, hlength]
  · have hread := Yaml.scanDouble_body (fun d (_ : d ∈ key.toList) => escape_quotedChar d)
      (':' :: c :: r) (show 0 < pos.advance.column from Nat.succ_pos _) [] []
    have hlength : (quote key).length = 1 + ((key.toList.flatMap quotedChar).length + 1) := by
      rw [← String.length_toList, quote, String.toList_ofList]
      simp
      omega
    rw [List.append_nil, List.reverse_nil, List.nil_append, String.ofList_toList,
      Yaml.Position.advance_advance] at hread
    rw [quote, String.toList_ofList, List.cons_append, List.append_assoc, List.singleton_append,
      Yaml.Scan.lexeme_double hread, ← hlength, quote]

theorem startsLexeme_keyText (key : String) :
    ∃ first cs, (keyText key).toList = first :: cs ∧ Yaml.startsLexeme first = true := by
  rw [keyText]
  split
  · rename_i hkey
    obtain ⟨first, cs, hcs, hplain⟩ := isPlain_of_isIdentifier (Bool.and_eq_true_iff.mp hkey).1
    exact ⟨first, cs, hcs, Yaml.Scan.startsLexeme_of_isPlain hplain⟩
  · rw [quote, String.toList_ofList]
    exact ⟨'"', _, rfl, by decide⟩

/-- A key with its colon. If it stands deeper than the innermost collection, it opens a
    mapping. -/
theorem leads_keyText (tokens : List Yaml.Token) (outer : List Int) {key : String}
    (hkey : FieldKey key) {k column : Nat} (hk : pos.column + k = column) (hcolumn : indent ≤ column)
    {c : Char} (hc : c = ' ' ∨ c = '\n') (r : List Char) :
    ∃ pos', column < pos'.column ∧
      Leads (free (spaces k ++ ((keyText key).toList ++ ':' :: c :: r)) pos tokens indent outer true)
        (free (c :: r) pos' (.value :: .scalar (keyStyle key) key :: .key ::
            (if indent < column then .blockMapping :: tokens else tokens))
          column (if indent < column then indent :: outer else outer) false) := by
  have hlexeme := lexeme_keyText (pos.advance k) tokens outer key (hk ▸ hcolumn) hc r
  obtain ⟨first, cs, htext, hfirst⟩ := startsLexeme_keyText key
  rw [htext, List.cons_append] at hlexeme ⊢
  exact Yaml.Scan.leads_key_of_lexeme hfirst hkey.short hk hcolumn hc hlexeme

end


-- ## Readability

theorem isReadable_marks : Yaml.isReadable ' ' = true ∧ Yaml.isReadable '\n' = true ∧
    Yaml.isReadable ':' = true ∧ Yaml.isReadable '-' = true ∧ Yaml.isReadable '|' = true ∧
    Yaml.isReadable '"' = true := by
  decide

/-- Of the characters that blocks and quotes leave as they are, those are not readable
    that are no characters. -/
theorem isReadable_of_isClean {c : Char} (h : isClean c = true ∨ c = '\n' ∨ c = '\t') :
    Yaml.isReadable c = !isNoncharacter c := by
  rcases h with h | rfl | rfl
  · by_cases hnon : isNoncharacter c = true
    · rw [hnon]
      simp only [isNoncharacter, Bool.or_eq_true, beq_iff_eq] at hnon
      rcases hnon with rfl | rfl <;> decide
    · have hne : c.toNat ≠ 0xFFFE ∧ c.toNat ≠ 0xFFFF := by
        refine ⟨fun heq => hnon ?_, fun heq => hnon ?_⟩ <;>
          · rw [← Char.ofNat_toNat c, heq]
            decide
      have hvalid : c.toNat < 0xD800 ∨ 0xDFFF < c.toNat ∧ c.toNat < 0x110000 := c.valid
      simp only [isClean, Text.isControl, Bool.and_eq_true, Bool.not_eq_true', Bool.or_eq_false_iff,
        Bool.and_eq_false_iff, decide_eq_false_iff_not] at h
      rw [Bool.not_eq_true] at hnon
      simp only [hnon, Yaml.isReadable, Bool.not_false, Bool.or_eq_true, Bool.and_eq_true, beq_iff_eq,
        decide_eq_true_eq]
      omega
  · decide
  · decide

namespace Yaml

theorem all_isReadable_spaces (n : Nat) : (spaces n).all isReadable = true :=
  List.all_eq_true.mpr fun _ => isReadable_of_mem_spaces

theorem all_isReadable_literalBody (n : Nat) (cs : List Char) (newLine : Bool) :
    (literalBody n cs newLine).all isReadable = cs.all isReadable := by
  induction cs generalizing newLine with
  | nil => cases newLine <;> simp [literalBody, isReadable_marks]
  | cons c cs ih =>
      rw [literalBody, List.all_cons]
      split
      · rw [List.all_cons, ih]
      · rw [List.all_append, List.all_cons, ih]
        cases newLine <;> simp [all_isReadable_spaces]

theorem all_isReadable_chompingSign (chomping : Chomping) :
    (chompingSign chomping).all isReadable = true := by
  cases chomping <;> decide

end Yaml

theorem all_isReadable_quotedChar (c : Char) :
    (quotedChar c).all Yaml.isReadable = !isNoncharacter c := by
  have hclean : ∀ d ∈ quotedChar c, Yaml.isReadable d = !isNoncharacter d := fun d hd =>
    isReadable_of_isClean (.inl (isClean_of_mem_quotedChar hd))
  -- Non-characters are among those that quotes leave as they are.
  by_cases hself : quotedChar c = [c]
  · rw [hself] at hclean ⊢
    simpa using hclean c
  · have hnon : isNoncharacter c = false := by
      rw [← Bool.not_eq_true]
      intro hnon
      simp only [isNoncharacter, Bool.or_eq_true, beq_iff_eq] at hnon
      rcases hnon with rfl | rfl <;> exact hself (by decide)
    rw [hnon, Bool.not_false, List.all_eq_true]
    exact fun d hd => (escape_quotedChar c).isReadable_of_mem (fun h => absurd h hself) hd

/-- A prompt of characters that a reader accepts. -/
def isLegible (text : String) : Bool := text.toList.all fun c => !isNoncharacter c

theorem all_isReadable_promptText (level : Nat) (text : String) :
    (promptText level text).all Yaml.isReadable = isLegible text := by
  rw [promptText, isLegible]
  split
  · rename_i hprose
    have hsafe : ∀ c ∈ text.toList, Yaml.isReadable c = !isNoncharacter c := by
      intro c hc
      have hblock := List.all_eq_true.mp ((isProse_iff text).mp hprose).2 c hc
      refine isReadable_of_isClean ?_
      simp only [isClean, Bool.and_eq_true, Bool.or_eq_true, beq_iff_eq] at hblock ⊢
      tauto
    have hmark : (if leadChar? text.toList == some ' ' then ['2'] else []).all Yaml.isReadable =
        true := by
      split <;> decide
    simp only [List.all_cons, List.all_append, hmark, Yaml.all_isReadable_chompingSign,
      Yaml.all_isReadable_literalBody, isReadable_marks, Bool.true_and]
    rw [Bool.eq_iff_iff, List.all_eq_true, List.all_eq_true]
    exact forall₂_congr fun c hc => by rw [hsafe c hc]
  · simp only [List.all_cons, List.all_append, List.all_flatMap, all_isReadable_quotedChar,
      isReadable_marks, List.all_nil, Bool.true_and, Bool.and_true]

theorem all_isReadable_keyText {key : String} (h : FieldKey key) :
    (keyText key).toList.all Yaml.isReadable = true := by
  rw [keyText]
  split
  · rename_i hkey
    refine List.all_eq_true.mpr fun c hc => ?_
    rw [isReadable_of_isClean (.inl (isClean_of_mem_identifier (Bool.and_eq_true_iff.mp hkey).1 hc)),
      h.readable c hc]
    rfl
  · have hbody : (key.toList.flatMap quotedChar).all Yaml.isReadable = true := by
      simp only [List.all_flatMap, all_isReadable_quotedChar, List.all_eq_true]
      exact fun c hc => by rw [h.readable c hc]; rfl
    rw [quote, String.toList_ofList]
    simp [hbody, isReadable_marks]

end SimStudio
