import SimStudio.Proofs.Yaml.Steps

/-!
# Written Trees Scanned

The tokens of a written tree.

A value is scanned within the innermost collection that is open around it, in
column `indent`, and whatever it opens it has closed again when the next line
begins. So one statement says for every tree what the scanner makes of it, and
the proof follows the writer: items in the column of their list, entries in the
column of their mapping.

## Main definitions

* `Yaml.Tree.word?`: The word as which a tree without parts is written.
* `Yaml.Tree.tokens`: The tokens of a tree behind its lead.
* `Yaml.Tree.Scanned`: The scanner makes these tokens of a tree.

## Theorems

* `Yaml.Tree.induction`: Trees by their parts.
* `Yaml.Tree.scanned`: Every tree is scanned.
* `Yaml.Tree.run_write`: So is a text that consists of a mapping.
-/

namespace SimStudio

namespace Yaml

namespace Tree

/-- The word as which a tree without parts is written, if it is no text. -/
def word? : Tree → Option String
  | null => some "null"
  | bool true => some "true"
  | bool false => some "false"
  | int i => some (toString i)
  | float x => some (floatText x)
  | _ => none

/-- Trees by their parts: words, texts, lists and mappings. -/
theorem induction {P : Tree → Prop} (word : ∀ v w, v.word? = some w → P v)
    (text : ∀ s, P (.text s)) (sequence : ∀ items, (∀ v ∈ items, P v) → P (.sequence items))
    (mapping : ∀ entries, (∀ e ∈ entries, P e.2) → P (.mapping entries)) (v : Tree) : P v := by
  have hbool : ∀ b, P (.bool b) := fun b => by cases b <;> exact word _ _ rfl
  refine @Tree.rec P (fun items => ∀ v ∈ items, P v) (fun entries => ∀ e ∈ entries, P e.2)
    (fun e => P e.2) (word _ _ rfl) hbool (fun _ => word _ _ rfl) (fun _ => word _ _ rfl) text
    sequence mapping ?_ ?_ ?_ ?_ (fun _ _ ih => ih) v
  · exact fun _ hv => absurd hv List.not_mem_nil
  · exact fun _ _ hv hrest => List.forall_mem_cons.mpr ⟨hv, hrest⟩
  · exact fun _ he => absurd he List.not_mem_nil
  · exact fun _ _ he hrest => List.forall_mem_cons.mpr ⟨he, hrest⟩

theorem valueText_word {v : Tree} {w : String} (h : v.word? = some w) (lead : Lead)
    (indent : Nat) : v.valueText lead indent = lead.gap ++ (w.toList ++ ['\n']) := by
  cases v with
  | null => cases h; rfl
  | bool b => cases b <;> cases h <;> rfl
  | int i => cases h; exact List.append_assoc _ _ _
  | float x => cases h; exact List.append_assoc _ _ _
  | text s => cases h
  | sequence items => cases h
  | mapping entries => cases h

theorem isPlain_word {v : Tree} {w : String} (h : v.word? = some w) :
    ∃ first cs, w.toList = first :: cs ∧ IsPlain first cs := by
  have hname : ∀ first cs, (first :: cs).all isNumberMark = true → first.isAlpha = true →
      IsPlain first cs := by
    intro first cs hmarks hfirst
    refine isPlain_of_numberMarks (List.all_eq_true.mp hmarks) fun hmark => ?_
    rcases hmark with rfl | rfl <;> exact absurd hfirst (by decide)
  cases v with
  | null => cases h; exact ⟨'n', _, rfl, hname _ _ (by decide) (by decide)⟩
  | bool b =>
      cases b with
      | true => cases h; exact ⟨'t', _, rfl, hname _ _ (by decide) (by decide)⟩
      | false => cases h; exact ⟨'f', _, rfl, hname _ _ (by decide) (by decide)⟩
  | int i => cases h; exact isPlain_intText i
  | float x => cases h; exact isPlain_floatText x
  | text s => cases h
  | sequence items => cases h
  | mapping entries => cases h

/-- What stands before the value of a key. -/
def keyLead (key : String) : Lead := if isSimpleKey key then .afterKey else .begun

mutual

/-- The tokens of a value behind its lead. -/
def tokens (lead : Lead) : Tree → List Token
  | null => [.scalar .plain "null"]
  | bool true => [.scalar .plain "true"]
  | bool false => [.scalar .plain "false"]
  | int i => [.scalar .plain (toString i)]
  | float x => [.scalar .plain (floatText x)]
  | text s => [.scalar (styleOf s) s]
  | sequence items =>
      if items.isEmpty then [.flowSequence, .flowSequenceEnd]
      else
        match lead with
        | .begun => .blockSequence :: (itemTokens items ++ [.blockEnd])
        | .afterKey => itemTokens items
  | mapping entries =>
      if entries.isEmpty then [.flowMapping, .flowMappingEnd]
      else .blockMapping :: (entryTokens entries ++ [.blockEnd])

/-- The tokens of the items of a list. -/
def itemTokens : List Tree → List Token
  | [] => []
  | x :: rest => .blockEntry :: (tokens .begun x ++ itemTokens rest)

/-- The tokens of the entries of a mapping. -/
def entryTokens : List (String × Tree) → List Token
  | [] => []
  | (key, v) :: rest =>
      .key :: .scalar (styleOf key) key :: .value :: (tokens (keyLead key) v ++ entryTokens rest)

end

theorem tokens_word {v : Tree} {w : String} (h : v.word? = some w) (lead : Lead) :
    v.tokens lead = [.scalar .plain w] := by
  cases v with
  | null => cases h; rfl
  | bool b => cases b <;> cases h <;> rfl
  | int i => cases h; rfl
  | float x => cases h; rfl
  | text s => cases h
  | sequence items => cases h
  | mapping entries => cases h

open Scan (Leads free)

/-- The scanner makes its tokens of a tree, within a collection in any column, and
    has closed what it opened when the next line begins. -/
structure Scanned (v : Tree) : Prop where
  begun : ∀ (indent : Nat) (outer : List Int) (ts : List Token) (pos : Position) (rest : List Char),
    pos.column = indent + 2 → Follows indent rest →
      ∃ pos', pos'.column = 0 ∧
        Leads (free (v.valueText .begun (indent + 2) ++ rest) pos ts indent outer true)
          (free rest pos' ((v.tokens .begun).reverse ++ ts) indent outer true)
  afterKey : ∀ (indent : Nat) (outer : List Int) (ts : List Token) (pos : Position)
    (rest : List Char), indent < pos.column → Follows indent rest →
      ∃ pos', pos'.column = 0 ∧
        Leads (free (v.valueText .afterKey indent ++ rest) pos ts indent outer false)
          (free rest pos' ((v.tokens .afterKey).reverse ++ ts) indent outer true)

theorem exists_leads {s s' : Scan} {t : Position → Scan} (h : Leads s s')
    (h' : ∃ pos', pos'.column = 0 ∧ Leads s' (t pos')) :
    ∃ pos', pos'.column = 0 ∧ Leads s (t pos') := by
  obtain ⟨pos', hpos', hleads⟩ := h'
  exact ⟨pos', hpos', h.trans hleads⟩

theorem exists_leads_bind {s : Scan} {t u : Position → Scan}
    (h : ∃ pos, pos.column = 0 ∧ Leads s (t pos))
    (h' : ∀ pos, pos.column = 0 → ∃ pos', pos'.column = 0 ∧ Leads (t pos) (u pos')) :
    ∃ pos', pos'.column = 0 ∧ Leads s (u pos') := by
  obtain ⟨pos, hpos, hleads⟩ := h
  exact exists_leads hleads (h' pos hpos)

theorem scanned_word {v : Tree} {w : String} (h : v.word? = some w) : Scanned v := by
  obtain ⟨first, cs, htext, hplain⟩ := isPlain_word h
  have hw : w = String.ofList (first :: cs) := by rw [← htext, String.ofList_toList]
  have hline : ∀ rest, first :: cs ++ ['\n'] ++ rest = first :: (cs ++ '\n' :: rest) := by
    intro rest
    simp
  refine ⟨fun indent outer ts pos rest hpos hrest => ?_,
    fun indent outer ts pos rest hpos hrest => ?_⟩
  · rw [valueText_word h, tokens_word h, Lead.gap, List.nil_append, htext, hline, hw]
    exact Scan.leads_plain hplain (by omega) (by omega) hrest
  · rw [valueText_word h, tokens_word h, Lead.gap, htext, List.singleton_append, List.cons_append,
      hline, hw]
    refine exists_leads (Scan.leads_blank _) (Scan.leads_plain hplain ?_ (Nat.succ_pos _) hrest)
    rw [Position.advance_column]
    omega

theorem scanned_text (s : String) : Scanned (.text s) := by
  refine ⟨fun indent outer ts pos rest hpos hrest => ?_,
    fun indent outer ts pos rest hpos hrest => ?_⟩
  · rw [valueText, tokens]
    exact Scan.leads_scalarText s (by omega) (by omega) (by omega) hrest
  · rw [valueText, tokens]
    refine exists_leads (Scan.leads_blank _)
      (Scan.leads_scalarText s (by omega) (by omega) ?_ hrest)
    rw [Position.advance_column]
    omega

-- ## Lists

theorem follows_items {indent : Nat} {rest : List Char} (hrest : Follows indent rest)
    (items : List Tree) : Follows indent (itemTexts false indent items ++ rest) := by
  cases items with
  | nil => exact hrest
  | cons x items =>
      rw [itemTexts, if_neg Bool.false_ne_true, List.append_assoc, List.cons_append]
      exact .line (Int.le_refl _) (by decide)

-- Induction on the items, each of which ends where the next one begins.
theorem scanned_itemTexts {items : List Tree} (hitems : ∀ x ∈ items, Scanned x) (indent : Nat)
    (outer : List Int) (ts : List Token) {pos : Position} {rest : List Char}
    (hpos : pos.column = 0) (hrest : Follows indent rest) :
    ∃ pos', pos'.column = 0 ∧
      Leads (free (itemTexts false indent items ++ rest) pos ts indent outer true)
        (free rest pos' ((itemTokens items).reverse ++ ts) indent outer true) := by
  induction items generalizing ts pos with
  | nil => exact ⟨pos, hpos, Leads.refl _⟩
  | cons x items ih =>
      have htext : itemTexts false indent (x :: items) ++ rest = spaces indent ++ '-' :: ' ' ::
          (x.valueText .begun (indent + 2) ++ (itemTexts false indent items ++ rest)) := by
        simp [itemTexts]
      obtain ⟨pos₁, hpos₁, hvalue⟩ := (hitems x List.mem_cons_self).begun indent outer
        (.blockEntry :: ts) (pos.advance (indent + 2)) (itemTexts false indent items ++ rest)
        (by rw [Position.advance_column]; omega) (follows_items hrest items)
      obtain ⟨pos₂, hpos₂, hitems'⟩ := ih (fun y hy => hitems y (List.mem_cons_of_mem _ hy))
        ((x.tokens .begun).reverse ++ .blockEntry :: ts) hpos₁
      refine ⟨pos₂, hpos₂, ?_⟩
      rw [htext, itemTokens]
      simpa using ((Scan.leads_dash (by omega) _).trans hvalue).trans hitems'

theorem scanned_sequence {items : List Tree} (hitems : ∀ x ∈ items, Scanned x) :
    Scanned (.sequence items) := by
  refine ⟨fun indent outer ts pos rest hpos hrest => ?_,
    fun indent outer ts pos rest hpos hrest => ?_⟩
  -- Behind a mark the first item stands on the same line and opens the sequence.
  · cases items with
    | nil =>
        refine ⟨(pos.advance 2).newLine, rfl, ?_⟩
        exact Scan.leads_empty (by omega) hrest (.inl ⟨rfl, rfl, rfl, rfl⟩)
    | cons x items =>
        have htext : (sequence (x :: items)).valueText .begun (indent + 2) ++ rest = '-' :: ' ' ::
            (x.valueText .begun (indent + 2 + 2) ++ (itemTexts false (indent + 2) items ++ rest)) := by
          simp [valueText, itemTexts]
        have hrest' : Follows (indent + 2 : Nat) rest := hrest.mono (by omega)
        obtain ⟨pos₁, hpos₁, hvalue⟩ := (hitems x List.mem_cons_self).begun (indent + 2)
          (indent :: outer) (.blockEntry :: .blockSequence :: ts) (pos.advance 2)
          (itemTexts false (indent + 2) items ++ rest) (by rw [Position.advance_column]; omega)
          (follows_items hrest' items)
        obtain ⟨pos₂, hpos₂, hitems'⟩ := scanned_itemTexts
          (fun y hy => hitems y (List.mem_cons_of_mem _ hy)) (indent + 2) (indent :: outer)
          ((x.tokens .begun).reverse ++ .blockEntry :: .blockSequence :: ts) hpos₁ hrest'
        refine ⟨pos₂, hpos₂, ?_⟩
        rw [htext, tokens]
        simpa [itemTokens] using (((Scan.leads_dash_open (k := 0) hpos (by omega) _).trans hvalue).trans
          hitems').trans (Scan.leads_close (by omega) hrest hpos₂)
  · cases items with
    | nil =>
        refine ⟨(pos.advance.advance 2).newLine, rfl, (Scan.leads_blank _).trans ?_⟩
        exact Scan.leads_empty (by rw [Position.advance_column]; omega) hrest
          (.inl ⟨rfl, rfl, rfl, rfl⟩)
    | cons x items =>
        have htokens : (sequence (x :: items)).tokens .afterKey = itemTokens (x :: items) := by
          rw [tokens]
          rfl
        rw [htokens]
        exact exists_leads (Scan.leads_feed (fun c hc => absurd hc (by simp))
          (follows_items hrest (x :: items)))
          (scanned_itemTexts hitems indent outer ts (Position.newLine_column pos 1) hrest)

-- ## Mappings

/-- The text of an entry of a mapping. -/
def entryText (indent : Nat) (key : String) (v : Tree) : List Char :=
  if isSimpleKey key then
    scalarIn (styleOf key) (indent + 2) key.toList ++ ':' :: valueText .afterKey indent v
  else
    '?' :: ' ' :: (scalarText (indent + 2) key ++
      (spaces indent ++ ':' :: ' ' :: valueText .begun (indent + 2) v))

theorem entryTexts_cons (begun : Bool) (indent : Nat) (key : String) (v : Tree)
    (entries : List (String × Tree)) :
    entryTexts begun indent ((key, v) :: entries) = (if begun then [] else spaces indent) ++
      (entryText indent key v ++ entryTexts false indent entries) := by
  rw [entryTexts, entryText]

/-- Behind a colon there is a blank or the end of the line. -/
theorem exists_valueText_afterKey (v : Tree) (indent : Nat) :
    ∃ c cs, v.valueText .afterKey indent = c :: cs ∧ (c = ' ' ∨ c = '\n') := by
  cases hv : v.word? with
  | some w => exact ⟨' ', _, by rw [valueText_word hv, Lead.gap, List.singleton_append], .inl rfl⟩
  | none =>
      cases v with
      | null => cases hv
      | bool b => cases b <;> cases hv
      | int i => cases hv
      | float x => cases hv
      | text s => exact ⟨' ', _, by rw [valueText], .inl rfl⟩
      | sequence items =>
          cases items with
          | nil => exact ⟨' ', _, rfl, .inl rfl⟩
          | cons x items => exact ⟨'\n', _, rfl, .inr rfl⟩
      | mapping entries =>
          cases entries with
          | nil => exact ⟨' ', _, rfl, .inl rfl⟩
          | cons e entries => exact ⟨'\n', _, rfl, .inr rfl⟩

/-- An entry, of which the first of a mapping opens it. -/
theorem scanned_entry {v : Tree} (hv : Scanned v) (key : String) {indent : Int} {k column : Nat}
    {pos : Position} (hk : pos.column + k = column) (hcolumn : indent ≤ column) (outer : List Int)
    (ts : List Token) {rest : List Char} (hrest : Follows column rest) :
    ∃ pos', pos'.column = 0 ∧
      Leads (free (spaces k ++ (entryText column key v ++ rest)) pos ts indent outer true)
        (free rest pos' ((v.tokens (keyLead key)).reverse ++
            .value :: .scalar (styleOf key) key :: .key ::
              (if indent < column then .blockMapping :: ts else ts))
          column (if indent < column then indent :: outer else outer) true) := by
  -- A key that is not simple stands behind a question mark, with its colon on another line.
  by_cases hkey : isSimpleKey key = true
  · obtain ⟨c, cs, hvalue, hc⟩ := exists_valueText_afterKey v column
    obtain ⟨pos₁, hpos₁, hleads⟩ := Scan.leads_key ts outer hkey
      (show 0 < column + 2 by omega) hk hcolumn hc (cs ++ rest)
    have hafter := hv.afterKey column (if indent < column then indent :: outer else outer)
      (.value :: .scalar (styleOf key) key :: .key ::
        (if indent < column then .blockMapping :: ts else ts)) pos₁ rest hpos₁ hrest
    rw [hvalue] at hafter
    rw [entryText, if_pos hkey, hvalue, keyLead, if_pos hkey]
    simp only [List.append_assoc, List.cons_append]
    exact exists_leads hleads hafter
  · have hcolon : Follows column
        (spaces column ++ ':' :: ' ' :: (v.valueText .begun (column + 2) ++ rest)) :=
      .line (Int.le_refl _) (by decide)
    have htext : spaces k ++ (entryText column key v ++ rest) = spaces k ++ '?' :: ' ' ::
        (scalarText (column + 2) key ++
          (spaces column ++ ':' :: ' ' :: (v.valueText .begun (column + 2) ++ rest))) := by
      simp [entryText, hkey]
    rw [htext, keyLead, if_neg hkey]
    refine exists_leads (Scan.leads_question hk hcolumn _) (exists_leads_bind
      (Scan.leads_scalarText key (by omega) (by omega) ?_ hcolon) fun pos₁ hpos₁ =>
        exists_leads (Scan.leads_colon (by omega) _) (hv.begun column _ _ _ rest ?_ hrest))
    · rw [Position.advance_column]
      omega
    · rw [Position.advance_column]
      omega

theorem follows_entries {column : Nat} {rest : List Char} (hrest : Follows column rest)
    (entries : List (String × Tree)) :
    Follows column (entryTexts false column entries ++ rest) := by
  cases entries with
  | nil => exact hrest
  | cons e entries =>
      obtain ⟨key, v⟩ := e
      rw [entryTexts_cons, if_neg Bool.false_ne_true, List.append_assoc, List.append_assoc]
      by_cases hkey : isSimpleKey key = true
      · obtain ⟨first, cs, -, htext, hfirst, -⟩ := Scan.exists_lexeme_key .start [] [] hkey
          (show 0 < column + 2 by omega) (Int.le_refl _) (.inl rfl) []
        rw [entryText, if_pos hkey, htext]
        exact .line (Int.le_refl _) hfirst
      · rw [entryText, if_neg hkey]
        exact .line (Int.le_refl _) (by decide)

-- Induction on the entries, in the column of a mapping that is open already.
theorem scanned_entryTexts {entries : List (String × Tree)} (h : ∀ e ∈ entries, Scanned e.2)
    (column : Nat) (outer : List Int) (ts : List Token) {pos : Position} {rest : List Char}
    (hpos : pos.column = 0) (hrest : Follows column rest) :
    ∃ pos', pos'.column = 0 ∧
      Leads (free (entryTexts false column entries ++ rest) pos ts column outer true)
        (free rest pos' ((entryTokens entries).reverse ++ ts) column outer true) := by
  induction entries generalizing ts pos with
  | nil => exact ⟨pos, hpos, Leads.refl _⟩
  | cons e entries ih =>
      obtain ⟨key, v⟩ := e
      have hentry := scanned_entry (h _ List.mem_cons_self) key
        (show pos.column + column = column by omega) (Int.le_refl _) outer ts
        (follows_entries hrest entries)
      have htokens : (entryTokens ((key, v) :: entries)).reverse ++ ts =
          (entryTokens entries).reverse ++ ((v.tokens (keyLead key)).reverse ++
            .value :: .scalar (styleOf key) key :: .key :: ts) := by
        simp [entryTokens]
      rw [if_neg (Int.lt_irrefl _), if_neg (Int.lt_irrefl _)] at hentry
      rw [entryTexts_cons, if_neg Bool.false_ne_true, List.append_assoc, List.append_assoc, htokens]
      exact exists_leads_bind hentry fun pos₁ hpos₁ =>
        ih (fun e he => h e (List.mem_cons_of_mem _ he)) _ hpos₁

/-- The entries of a mapping that is opened by the first and closed behind the
    last. -/
theorem scanned_mapping_open {key : String} {v : Tree} {entries : List (String × Tree)}
    (h : ∀ e ∈ (key, v) :: entries, Scanned e.2) {indent : Int} {k column : Nat} {pos : Position}
    (hk : pos.column + k = column) (hcolumn : indent < column) (outer : List Int)
    (ts : List Token) {rest : List Char} (hrest : Follows indent rest) :
    ∃ pos', pos'.column = 0 ∧
      Leads (free (spaces k ++ (entryText column key v ++ (entryTexts false column entries ++ rest)))
          pos ts indent outer true)
        (free rest pos' (((mapping ((key, v) :: entries)).tokens .begun).reverse ++ ts) indent outer
          true) := by
  have hrest' : Follows column rest := hrest.mono (Int.le_of_lt hcolumn)
  have hentry := scanned_entry (h _ List.mem_cons_self) key hk (Int.le_of_lt hcolumn) outer ts
    (follows_entries hrest' entries)
  have htokens : ((mapping ((key, v) :: entries)).tokens .begun).reverse ++ ts =
      .blockEnd :: ((entryTokens entries).reverse ++ ((v.tokens (keyLead key)).reverse ++
        .value :: .scalar (styleOf key) key :: .key :: .blockMapping :: ts)) := by
    simp [tokens, entryTokens]
  rw [if_pos hcolumn, if_pos hcolumn] at hentry
  rw [htokens]
  exact exists_leads_bind (exists_leads_bind hentry fun pos₁ hpos₁ =>
    scanned_entryTexts (fun e he => h e (List.mem_cons_of_mem _ he)) column (indent :: outer) _ hpos₁
      hrest') fun pos₂ hpos₂ => ⟨pos₂, hpos₂, Scan.leads_close hcolumn hrest hpos₂⟩

theorem scanned_mapping {entries : List (String × Tree)} (h : ∀ e ∈ entries, Scanned e.2) :
    Scanned (.mapping entries) := by
  refine ⟨fun indent outer ts pos rest hpos hrest => ?_,
    fun indent outer ts pos rest hpos hrest => ?_⟩
  -- Behind a mark the first entry stands on the same line; behind a key it begins a new one.
  · cases entries with
    | nil =>
        refine ⟨(pos.advance 2).newLine, rfl, ?_⟩
        exact Scan.leads_empty (by omega) hrest (.inr ⟨rfl, rfl, rfl, rfl⟩)
    | cons e entries =>
        obtain ⟨key, v⟩ := e
        have htext : (mapping ((key, v) :: entries)).valueText .begun (indent + 2) ++ rest =
            spaces 0 ++ (entryText (indent + 2) key v ++
              (entryTexts false (indent + 2) entries ++ rest)) := by
          rw [valueText, if_neg (by simp), entryTexts_cons]
          simp
        rw [htext]
        exact scanned_mapping_open h (show pos.column + 0 = indent + 2 from hpos) (by omega) outer ts
          hrest
  · cases entries with
    | nil =>
        refine ⟨(pos.advance.advance 2).newLine, rfl, (Scan.leads_blank _).trans ?_⟩
        exact Scan.leads_empty (by rw [Position.advance_column]; omega) hrest
          (.inr ⟨rfl, rfl, rfl, rfl⟩)
    | cons e entries =>
        obtain ⟨key, v⟩ := e
        have htext : (mapping ((key, v) :: entries)).valueText .afterKey indent ++ rest =
            '\n' :: (entryTexts false (indent + 2) ((key, v) :: entries) ++ rest) := by
          rw [valueText, if_neg (by simp)]
          rfl
        have htokens : (mapping ((key, v) :: entries)).tokens .afterKey =
            (mapping ((key, v) :: entries)).tokens .begun := by
          rw [tokens, tokens]
        rw [htext, htokens]
        refine exists_leads (Scan.leads_feed (fun c hc => absurd hc (by simp))
          (follows_entries (hrest.mono (by omega)) _)) ?_
        rw [entryTexts_cons, if_neg Bool.false_ne_true, List.append_assoc, List.append_assoc]
        exact scanned_mapping_open h (by simp) (by omega) outer ts hrest

/-- The scanner makes its tokens of every tree. -/
theorem scanned (v : Tree) : Scanned v :=
  induction (fun _ _ => scanned_word) scanned_text (fun _ => scanned_sequence)
    (fun _ => scanned_mapping) v

/-- A text that consists of a mapping is scanned to the end. -/
theorem run_write {entries : List (String × Tree)} (hne : entries ≠ []) :
    (Scan.start ((mapping entries).valueText .begun 0)).run
        (((mapping entries).valueText .begun 0).length + 1) =
      some ((mapping entries).tokens .begun ++ [.streamEnd]) := by
  cases entries with
  | nil => exact absurd rfl hne
  | cons e entries =>
      obtain ⟨key, v⟩ := e
      have htext : (mapping ((key, v) :: entries)).valueText .begun 0 =
          spaces 0 ++ (entryText 0 key v ++ (entryTexts false 0 entries ++ [])) := by
        rw [valueText, if_neg (by simp), entryTexts_cons]
        simp
      obtain ⟨pos, -, hleads⟩ := scanned_mapping_open (fun e _ => scanned e.2)
        (show Position.start.column + 0 = 0 from rfl) (show (-1 : Int) < (0 : Nat) by omega) [] []
        (.nothing : Follows (-1) [])
      rw [← htext] at hleads
      rw [Scan.run_of_leads hleads]
      simp

end Tree

end Yaml

end SimStudio
