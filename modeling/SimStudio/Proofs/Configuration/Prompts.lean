import SimStudio.Proofs.Configuration.Scanning

/-!
# Prompts Among Keys

The tokens of prompts, wherever they stand in the mappings and lists of a
configuration.

A prompt is scanned within the mapping of its key, and has come to its end when
the next line begins, be that a key of the same mapping or of one around it, the
mark of another item, or nothing. Where one prompt cannot be scanned the whole
text cannot. So a scan is followed along the tree as a run that yields the next
state or is stuck, and what decides between the two is found at the prompts
alone.

## Main definitions

* `PromptTree`: Prompts at keys, among fields and items.
* `PromptTree.memberLines`: The lines of a mapping.
* `PromptTree.Lawful`: There is something at every key.
* `PromptTree.isKept`: A prompt that is read back.
* `PromptTree.tokens`: The tokens of what stands at a key.
* `PromptTree.Scanned`: The scanner makes these tokens of it.

## Theorems

* `PromptTree.all_isReadable_valueChars`: The characters of a tree are those of its
  prompts.
* `PromptTree.scanned`: Every tree is scanned, if its prompts are.
* `PromptTree.tokens?_document`: The tokens of a whole text.
-/

namespace SimStudio

open Yaml (Follows spaces)

/-- What stands at a key: a prompt, or keys with more of them, as fields or as the
    fields of items. -/
inductive PromptTree
  | prompt (text : String)
  | fields (members : List (String × PromptTree))
  | items (each : List (List (String × PromptTree)))
  deriving Inhabited

namespace PromptTree

-- ## Lines

mutual

/-- The lines of a key with what stands there. -/
def lines (level : Nat) (key : String) : PromptTree → List Line
  | prompt text => proseField level key text
  | fields members => heading level key :: memberLines (level + 1) members
  | items each => heading level key :: itemLines (level + 1) each

/-- The lines of the keys of a mapping. -/
def memberLines (level : Nat) : List (String × PromptTree) → List Line
  | [] => []
  | (key, t) :: rest => lines level key t ++ memberLines level rest

/-- The lines of the items of a list. -/
def itemLines (level : Nat) : List (List (String × PromptTree)) → List Line
  | [] => []
  | members :: rest => markFirst (memberLines (level + 1) members) ++ itemLines level rest

end

mutual

/-- The prompts of a tree. -/
def texts : PromptTree → List String
  | prompt text => [text]
  | fields members => memberTexts members
  | items each => itemTexts each

/-- The prompts at the keys of a mapping. -/
def memberTexts : List (String × PromptTree) → List String
  | [] => []
  | (_, t) :: rest => texts t ++ memberTexts rest

/-- The prompts in the items of a list. -/
def itemTexts : List (List (String × PromptTree)) → List String
  | [] => []
  | members :: rest => memberTexts members ++ itemTexts rest

end

/-- No mapping and no list is empty, and the keys are keys to YAML. -/
inductive Lawful : PromptTree → Prop
  | prompt (text : String) : Lawful (prompt text)
  | fields {members : List (String × PromptTree)} (hne : members ≠ [])
      (keys : ∀ m ∈ members, FieldKey m.1) (each : ∀ m ∈ members, m.2.Lawful) :
      Lawful (fields members)
  | items {each : List (List (String × PromptTree))} (hne : each ≠ [])
      (nonempty : ∀ members ∈ each, members ≠ [])
      (keys : ∀ members ∈ each, ∀ m ∈ members, FieldKey m.1)
      (lawful : ∀ members ∈ each, ∀ m ∈ members, m.2.Lawful) : Lawful (items each)

/-- A prompt that is read back: it is measured and legible. -/
def isKept (text : String) : Bool := isLegible text && isMeasured text

-- ## Characters

/-- The characters of the keys of a mapping. -/
def memberChars (level : Nat) (members : List (String × PromptTree)) : List Char :=
  (renderLines (memberLines level members)).toList

/-- The characters of the items of a list. -/
def itemChars (level : Nat) (each : List (List (String × PromptTree))) : List Char :=
  (renderLines (itemLines level each)).toList

/-- What stands behind the colon of a key. -/
def valueChars (level : Nat) : PromptTree → List Char
  | prompt text => ' ' :: promptText level text
  | fields members => '\n' :: memberChars (level + 1) members
  | items each => '\n' :: itemChars (level + 1) each

/-- The first line of a key is an entry. -/
theorem exists_lines_eq (level : Nat) (key : String) (t : PromptTree) :
    ∃ line rest, t.lines level key = .entry level false line :: rest ∧
      line.toList ++ '\n' :: (renderLines rest).toList =
        (keyText key).toList ++ ':' :: t.valueChars level := by
  have hheading : ∀ rest, (keyText key ++ ":").toList ++ '\n' :: (renderLines rest).toList =
      (keyText key).toList ++ ':' :: '\n' :: (renderLines rest).toList := by
    intro rest
    simp
  cases t with
  | prompt text =>
      rw [lines, valueChars]
      exact exists_proseField_eq level key text
  | fields members =>
      rw [lines]
      exact ⟨_, _, rfl, hheading _⟩
  | items each =>
      rw [lines]
      exact ⟨_, _, rfl, hheading _⟩

theorem memberChars_cons (level : Nat) (key : String) (t : PromptTree)
    (members : List (String × PromptTree)) :
    memberChars level ((key, t) :: members) = spaces (2 * level) ++
      ((keyText key).toList ++ ':' :: (t.valueChars level ++ memberChars level members)) := by
  obtain ⟨line, rest, hlines, hchars⟩ := exists_lines_eq level key t
  rw [memberChars, memberLines, toList_renderLines_append, hlines, toList_renderLines_entry, hchars]
  simp [memberChars]

theorem itemChars_cons (level : Nat) (key : String) (t : PromptTree)
    (members : List (String × PromptTree)) (each : List (List (String × PromptTree))) :
    itemChars level (((key, t) :: members) :: each) = spaces (2 * level) ++ '-' :: ' ' ::
      ((keyText key).toList ++ ':' :: (t.valueChars (level + 1) ++
        (memberChars (level + 1) members ++ itemChars level each))) := by
  obtain ⟨line, rest, hlines, hchars⟩ := exists_lines_eq (level + 1) key t
  have hfirst : markFirst (memberLines (level + 1) ((key, t) :: members)) =
      markFirst (.entry (level + 1) false line :: rest) ++ memberLines (level + 1) members := by
    rw [memberLines, hlines]
    rfl
  rw [itemChars, itemLines, hfirst, toList_renderLines_append, toList_renderLines_append,
    toList_renderLines_markFirst, hchars]
  simp [memberChars, itemChars]

/-- Behind a colon there is a blank or the end of the line. -/
theorem exists_valueChars_eq (level : Nat) (t : PromptTree) :
    ∃ c cs, t.valueChars level = c :: cs ∧ (c = ' ' ∨ c = '\n') := by
  cases t with
  | prompt text => exact ⟨' ', _, rfl, .inl rfl⟩
  | fields members => exact ⟨'\n', _, rfl, .inr rfl⟩
  | items each => exact ⟨'\n', _, rfl, .inr rfl⟩

-- ## Readability

theorem all_isReadable_memberChars (level : Nat) {members : List (String × PromptTree)}
    (keys : ∀ m ∈ members, FieldKey m.1)
    (each : ∀ m ∈ members, ∀ level, (m.2.valueChars level).all Yaml.isReadable =
      m.2.texts.all isLegible) :
    (memberChars level members).all Yaml.isReadable = (memberTexts members).all isLegible := by
  induction members with
  | nil => rfl
  | cons m members ih =>
      obtain ⟨key, t⟩ := m
      have hmembers := ih (fun m hm => keys m (List.mem_cons_of_mem _ hm))
        fun m hm => each m (List.mem_cons_of_mem _ hm)
      have ht : ∀ level, (t.valueChars level).all Yaml.isReadable = t.texts.all isLegible :=
        each _ List.mem_cons_self
      simp only [memberChars_cons, memberTexts, List.all_append, List.all_cons,
        Yaml.all_isReadable_spaces, all_isReadable_keyText (keys _ List.mem_cons_self), ht, hmembers,
        isReadable_marks, Bool.true_and]

theorem all_isReadable_itemChars (level : Nat) {each : List (List (String × PromptTree))}
    (nonempty : ∀ members ∈ each, members ≠ [])
    (keys : ∀ members ∈ each, ∀ m ∈ members, FieldKey m.1)
    (hall : ∀ members ∈ each, ∀ m ∈ members, ∀ level, (m.2.valueChars level).all Yaml.isReadable =
      m.2.texts.all isLegible) :
    (itemChars level each).all Yaml.isReadable = (itemTexts each).all isLegible := by
  induction each with
  | nil => rfl
  | cons members each ih =>
      have heach := ih (fun ms hms => nonempty ms (List.mem_cons_of_mem _ hms))
        (fun ms hms => keys ms (List.mem_cons_of_mem _ hms))
        fun ms hms => hall ms (List.mem_cons_of_mem _ hms)
      have hmembers := all_isReadable_memberChars (level + 1) (keys _ List.mem_cons_self)
        (hall _ List.mem_cons_self)
      cases members with
      | nil => exact absurd rfl (nonempty [] List.mem_cons_self)
      | cons m members =>
          obtain ⟨key, t⟩ := m
          rw [memberChars_cons] at hmembers
          simp only [List.all_append, List.all_cons, Yaml.all_isReadable_spaces, Bool.true_and]
            at hmembers
          simp only [itemChars_cons, itemTexts, List.all_append, List.all_cons,
            Yaml.all_isReadable_spaces, heach, ← hmembers, isReadable_marks, Bool.true_and,
            Bool.and_assoc]

theorem all_isReadable_valueChars {t : PromptTree} (h : t.Lawful) (level : Nat) :
    (t.valueChars level).all Yaml.isReadable = t.texts.all isLegible := by
  induction h generalizing level with
  | prompt text =>
      rw [valueChars, texts, List.all_cons, all_isReadable_promptText, List.all_cons, List.all_nil,
        Bool.and_true]
      rfl
  | fields _ keys _ ih =>
      rw [valueChars, texts, List.all_cons, all_isReadable_memberChars (level + 1) keys ih]
      rfl
  | items _ nonempty keys _ ih =>
      rw [valueChars, texts, List.all_cons, all_isReadable_itemChars (level + 1) nonempty keys ih]
      rfl

-- ## Tokens

mutual

/-- The tokens of what stands at a key. -/
def tokens : PromptTree → List Yaml.Token
  | prompt text => [.scalar (promptStyle text) text]
  | fields members => .blockMapping :: (memberTokens members ++ [.blockEnd])
  | items each => .blockSequence :: (itemTokens each ++ [.blockEnd])

/-- The tokens of the keys of a mapping. -/
def memberTokens : List (String × PromptTree) → List Yaml.Token
  | [] => []
  | (key, t) :: rest =>
      .key :: .scalar (keyStyle key) key :: .value :: (tokens t ++ memberTokens rest)

/-- The tokens of the items of a list. -/
def itemTokens : List (List (String × PromptTree)) → List Yaml.Token
  | [] => []
  | members :: rest =>
      .blockEntry :: .blockMapping :: (memberTokens members ++ .blockEnd :: itemTokens rest)

end

open Yaml.Scan (free Yields Leads)

/-- The scanner makes its tokens of what stands at a key in the column of a level, if
    it can tell the depth of every prompt there. -/
def Scanned (t : PromptTree) : Prop :=
  ∀ (level : Nat) (outer : List Int) (ts : List Yaml.Token) (pos : Yaml.Position)
    (rest : List Char), 2 * level < pos.column → Follows (2 * level : Nat) rest →
      Yields (t.texts.all isMeasured)
        (free (t.valueChars level ++ rest) pos ts (2 * level : Nat) outer false)
        fun pos' => free rest pos' (t.tokens.reverse ++ ts) (2 * level : Nat) outer true

theorem scanned_prompt (text : String) : (prompt text).Scanned := by
  intro level outer ts pos rest hpos hrest
  have hcolumn : 2 * level < pos.advance.column := Nat.lt_succ_of_lt hpos
  refine (Yaml.Scan.leads_blank _).yields ?_
  rw [texts, List.all_cons, List.all_nil, Bool.and_true]
  cases h : isMeasured text with
  | true => exact leads_prompt h hcolumn hrest
  | false => exact stuck_prompt h hcolumn

theorem follows_memberChars {level : Nat} {column : Int} (hcolumn : (2 * level : Nat) ≤ column)
    {rest : List Char} (hrest : Follows column rest) (members : List (String × PromptTree)) :
    Follows column (memberChars level members ++ rest) := by
  cases members with
  | nil => exact hrest
  | cons m members =>
      obtain ⟨key, t⟩ := m
      obtain ⟨first, cs, hkey, hfirst⟩ := startsLexeme_keyText key
      rw [memberChars_cons, hkey, List.append_assoc]
      exact .line hcolumn hfirst

/-- A key with what stands there, in a mapping that is open or that it opens. -/
theorem scanned_member {key : String} {t : PromptTree} (hkey : FieldKey key) (ht : t.Scanned)
    {level k : Nat} {indent : Int} {pos : Yaml.Position} (hk : pos.column + k = 2 * level)
    (hcolumn : indent ≤ (2 * level : Nat)) (outer : List Int) (ts : List Yaml.Token)
    {rest : List Char} (hrest : Follows (2 * level : Nat) rest) :
    Yields (t.texts.all isMeasured)
      (free (spaces k ++ ((keyText key).toList ++ ':' :: (t.valueChars level ++ rest))) pos ts indent
        outer true)
      fun pos' => free rest pos' (t.tokens.reverse ++ .value :: .scalar (keyStyle key) key :: .key ::
          (if indent < (2 * level : Nat) then .blockMapping :: ts else ts))
        (2 * level : Nat) (if indent < (2 * level : Nat) then indent :: outer else outer) true := by
  obtain ⟨c, cs, hvalue, hc⟩ := exists_valueChars_eq level t
  obtain ⟨pos₁, hpos₁, hleads⟩ := leads_keyText ts outer hkey hk hcolumn hc (cs ++ rest)
  have hscanned := ht level (if indent < (2 * level : Nat) then indent :: outer else outer)
    (.value :: .scalar (keyStyle key) key :: .key ::
      (if indent < (2 * level : Nat) then .blockMapping :: ts else ts)) pos₁ rest hpos₁ hrest
  rw [hvalue, List.cons_append] at hscanned ⊢
  exact hleads.yields hscanned

-- Induction on the keys, each of which ends where the next one begins.
theorem scanned_members {members : List (String × PromptTree)}
    (keys : ∀ m ∈ members, FieldKey m.1) (each : ∀ m ∈ members, m.2.Scanned) (level : Nat)
    (outer : List Int) (ts : List Yaml.Token) {pos : Yaml.Position} {rest : List Char}
    (hpos : pos.column = 0) (hrest : Follows (2 * level : Nat) rest) :
    Yields ((memberTexts members).all isMeasured)
      (free (memberChars level members ++ rest) pos ts (2 * level : Nat) outer true)
      fun pos' => free rest pos' ((memberTokens members).reverse ++ ts) (2 * level : Nat) outer
        true := by
  induction members generalizing ts pos with
  | nil => exact ⟨pos, hpos, Leads.refl _⟩
  | cons m members ih =>
      obtain ⟨key, t⟩ := m
      have hmember := scanned_member (keys _ List.mem_cons_self) (each _ List.mem_cons_self)
        (show pos.column + 2 * level = 2 * level by omega) (Int.le_refl _) outer ts
        (follows_memberChars (Int.le_refl _) hrest members)
      have htokens : (memberTokens ((key, t) :: members)).reverse ++ ts =
          (memberTokens members).reverse ++ (t.tokens.reverse ++
            .value :: .scalar (keyStyle key) key :: .key :: ts) := by
        simp [memberTokens]
      rw [if_neg (Int.lt_irrefl _), if_neg (Int.lt_irrefl _)] at hmember
      rw [memberTexts, List.all_append, memberChars_cons, htokens]
      simp only [List.append_assoc, List.cons_append]
      exact hmember.bind fun pos₁ hpos₁ => ih (fun m hm => keys m (List.mem_cons_of_mem _ hm))
        (fun m hm => each m (List.mem_cons_of_mem _ hm)) _ hpos₁

/-- The keys of a mapping that is opened by the first and closed behind the last. -/
theorem scanned_mapping {key : String} {t : PromptTree} {members : List (String × PromptTree)}
    (keys : ∀ m ∈ (key, t) :: members, FieldKey m.1)
    (each : ∀ m ∈ (key, t) :: members, m.2.Scanned) {level k : Nat} {indent : Int}
    {pos : Yaml.Position} (hk : pos.column + k = 2 * level) (hcolumn : indent < (2 * level : Nat))
    (outer : List Int) (ts : List Yaml.Token) {rest : List Char} (hrest : Follows indent rest) :
    Yields ((memberTexts ((key, t) :: members)).all isMeasured)
      (free (spaces k ++ ((keyText key).toList ++ ':' ::
        (t.valueChars level ++ (memberChars level members ++ rest)))) pos ts indent outer true)
      fun pos' => free rest pos' (.blockEnd :: ((memberTokens ((key, t) :: members)).reverse ++
        .blockMapping :: ts)) indent outer true := by
  have hrest' : Follows (2 * level : Nat) rest := hrest.mono (Int.le_of_lt hcolumn)
  have hmember := scanned_member (keys _ List.mem_cons_self) (each _ List.mem_cons_self) hk
    (Int.le_of_lt hcolumn) outer ts (follows_memberChars (Int.le_refl _) hrest' members)
  have htokens : (memberTokens ((key, t) :: members)).reverse ++ .blockMapping :: ts =
      (memberTokens members).reverse ++ (t.tokens.reverse ++
        .value :: .scalar (keyStyle key) key :: .key :: .blockMapping :: ts) := by
    simp [memberTokens]
  rw [if_pos hcolumn, if_pos hcolumn] at hmember
  rw [memberTexts, List.all_append, htokens]
  exact (hmember.bind fun pos₁ hpos₁ =>
    scanned_members (fun m hm => keys m (List.mem_cons_of_mem _ hm))
      (fun m hm => each m (List.mem_cons_of_mem _ hm)) level (indent :: outer) _ hpos₁ hrest').mono
    fun pos₂ hpos₂ => Yaml.Scan.leads_close hcolumn hrest hpos₂

theorem scanned_fields {members : List (String × PromptTree)} (hne : members ≠ [])
    (keys : ∀ m ∈ members, FieldKey m.1) (each : ∀ m ∈ members, m.2.Scanned) :
    (fields members).Scanned := by
  intro level outer ts pos rest hpos hrest
  cases members with
  | nil => exact absurd rfl hne
  | cons m members =>
      obtain ⟨key, t⟩ := m
      have hmapping := scanned_mapping keys each
        (show pos.newLine.column + 2 * (level + 1) = 2 * (level + 1) by simp)
        (show ((2 * level : Nat) : Int) < (2 * (level + 1) : Nat) by omega) outer ts hrest
      have htokens : (fields ((key, t) :: members)).tokens.reverse ++ ts =
          .blockEnd :: ((memberTokens ((key, t) :: members)).reverse ++ .blockMapping :: ts) := by
        simp [tokens]
      rw [texts, htokens, valueChars, List.cons_append]
      -- The keys begin on the line below, a level deeper, and so they open a mapping.
      refine (Yaml.Scan.leads_feed (fun c hc => absurd hc (by simp))
        (follows_memberChars (Int.le_refl _) (hrest.mono (by omega)) ((key, t) :: members))).yields ?_
      rw [memberChars_cons]
      simp only [List.append_assoc, List.cons_append]
      exact hmapping

-- ## Items

theorem follows_itemChars {level : Nat} {column : Int} (hcolumn : (2 * level : Nat) ≤ column)
    {rest : List Char} (hrest : Follows column rest) {each : List (List (String × PromptTree))}
    (nonempty : ∀ members ∈ each, members ≠ []) :
    Follows column (itemChars level each ++ rest) := by
  cases each with
  | nil => exact hrest
  | cons members each =>
      cases members with
      | nil => exact absurd rfl (nonempty [] List.mem_cons_self)
      | cons m members =>
          obtain ⟨key, t⟩ := m
          rw [itemChars_cons, List.append_assoc]
          exact .line hcolumn (by decide)

/-- An item behind its dash, in the list to which it belongs, and the items behind
    it. -/
theorem scanned_item {key : String} {t : PromptTree} {members : List (String × PromptTree)}
    {each : List (List (String × PromptTree))} (nonempty : ∀ members ∈ each, members ≠ [])
    (keys : ∀ m ∈ (key, t) :: members, FieldKey m.1)
    (scanned : ∀ m ∈ (key, t) :: members, m.2.Scanned) {level : Nat} (outer : List Int)
    (ts : List Yaml.Token) {pos : Yaml.Position} (hpos : pos.column = 2 * (level + 1))
    {rest : List Char} (hrest : Follows (2 * level : Nat) rest) :
    Yields ((memberTexts ((key, t) :: members)).all isMeasured)
      (free ((keyText key).toList ++ ':' :: (t.valueChars (level + 1) ++
        (memberChars (level + 1) members ++ (itemChars level each ++ rest)))) pos (.blockEntry :: ts)
        (2 * level : Nat) outer true)
      fun pos' => free (itemChars level each ++ rest) pos'
        ((.blockEntry :: .blockMapping :: (memberTokens ((key, t) :: members) ++
          [.blockEnd])).reverse ++ ts) (2 * level : Nat) outer true := by
  have hmapping := scanned_mapping keys scanned (show pos.column + 0 = 2 * (level + 1) from hpos)
    (show ((2 * level : Nat) : Int) < (2 * (level + 1) : Nat) by omega) outer (.blockEntry :: ts)
    (follows_itemChars (Int.le_refl _) hrest nonempty)
  simpa using hmapping

-- Induction on the items of a list that is open already.
theorem scanned_itemChars {each : List (List (String × PromptTree))}
    (nonempty : ∀ members ∈ each, members ≠ [])
    (keys : ∀ members ∈ each, ∀ m ∈ members, FieldKey m.1)
    (scanned : ∀ members ∈ each, ∀ m ∈ members, m.2.Scanned) (level : Nat) (outer : List Int)
    (ts : List Yaml.Token) {pos : Yaml.Position} (hpos : pos.column = 0) {rest : List Char}
    (hrest : Follows (2 * level : Nat) rest) :
    Yields ((itemTexts each).all isMeasured)
      (free (itemChars level each ++ rest) pos ts (2 * level : Nat) outer true)
      fun pos' => free rest pos' ((itemTokens each).reverse ++ ts) (2 * level : Nat) outer true := by
  induction each generalizing ts pos with
  | nil => exact ⟨pos, hpos, Leads.refl _⟩
  | cons members each ih =>
      cases members with
      | nil => exact absurd rfl (nonempty [] List.mem_cons_self)
      | cons m members =>
          obtain ⟨key, t⟩ := m
          have nonempty' : ∀ ms ∈ each, ms ≠ [] := fun ms hms =>
            nonempty ms (List.mem_cons_of_mem _ hms)
          have hitem := scanned_item nonempty' (keys _ List.mem_cons_self)
            (scanned _ List.mem_cons_self) outer ts
            (show (pos.advance (2 * level + 2)).column = 2 * (level + 1) by
              rw [Yaml.Position.advance_column]; omega) hrest
          have htokens : (itemTokens (((key, t) :: members) :: each)).reverse ++ ts =
              (itemTokens each).reverse ++ ((.blockEntry :: .blockMapping ::
                (memberTokens ((key, t) :: members) ++ [.blockEnd])).reverse ++ ts) := by
            simp [itemTokens]
          rw [itemTexts, List.all_append, itemChars_cons, htokens]
          simp only [List.append_assoc, List.cons_append]
          refine (Yaml.Scan.leads_dash (by omega) _).yields (hitem.bind fun pos₁ hpos₁ => ?_)
          exact ih nonempty' (fun ms hms => keys ms (List.mem_cons_of_mem _ hms))
            (fun ms hms => scanned ms (List.mem_cons_of_mem _ hms)) _ hpos₁

theorem scanned_items {each : List (List (String × PromptTree))} (hne : each ≠ [])
    (nonempty : ∀ members ∈ each, members ≠ [])
    (keys : ∀ members ∈ each, ∀ m ∈ members, FieldKey m.1)
    (scanned : ∀ members ∈ each, ∀ m ∈ members, m.2.Scanned) : (items each).Scanned := by
  intro level outer ts pos rest hpos hrest
  cases each with
  | nil => exact absurd rfl hne
  | cons members each =>
      have hdeeper : ((2 * level : Nat) : Int) < (2 * (level + 1) : Nat) := by omega
      have hrest' : Follows (2 * (level + 1) : Nat) rest := hrest.mono (Int.le_of_lt hdeeper)
      have hfollows := follows_itemChars (Int.le_refl _) hrest' nonempty
      cases members with
      | nil => exact absurd rfl (nonempty [] List.mem_cons_self)
      | cons m members =>
          obtain ⟨key, t⟩ := m
          have nonempty' : ∀ ms ∈ each, ms ≠ [] := fun ms hms =>
            nonempty ms (List.mem_cons_of_mem _ hms)
          have hitem := scanned_item nonempty' (keys _ List.mem_cons_self)
            (scanned _ List.mem_cons_self) ((2 * level : Nat) :: outer) (.blockSequence :: ts)
            (show (pos.newLine.advance (2 * (level + 1) + 2)).column = 2 * (level + 1 + 1) by
              rw [Yaml.Position.advance_column, Yaml.Position.newLine_column]; omega) hrest'
          have htokens : (items (((key, t) :: members) :: each)).tokens.reverse ++ ts =
              .blockEnd :: ((itemTokens each).reverse ++ ((.blockEntry :: .blockMapping ::
                (memberTokens ((key, t) :: members) ++ [.blockEnd])).reverse ++
                  .blockSequence :: ts)) := by
            simp [tokens, itemTokens]
          rw [texts, itemTexts, List.all_append, htokens, valueChars, List.cons_append]
          -- The first dash opens the list, and the line behind the last item closes it.
          refine (Yaml.Scan.leads_feed (fun c hc => absurd hc (by simp)) hfollows).yields ?_
          rw [itemChars_cons]
          simp only [List.append_assoc, List.cons_append]
          refine (Yaml.Scan.leads_dash_open (by simp) hdeeper _).yields
            ((hitem.bind fun pos₁ hpos₁ => ?_).mono fun pos₂ hpos₂ =>
              Yaml.Scan.leads_close hdeeper hrest hpos₂)
          exact scanned_itemChars nonempty' (fun ms hms => keys ms (List.mem_cons_of_mem _ hms))
            (fun ms hms => scanned ms (List.mem_cons_of_mem _ hms)) (level + 1) _ _ hpos₁ hrest'

/-- Whatever stands at a key is scanned. -/
theorem scanned {t : PromptTree} (h : t.Lawful) : t.Scanned := by
  induction h with
  | prompt text => exact scanned_prompt text
  | fields hne keys _ ih => exact scanned_fields hne keys ih
  | items hne nonempty keys _ ih => exact scanned_items hne nonempty keys ih

-- ## Whole Texts

/-- The text of a mapping that is a document. -/
def document (members : List (String × PromptTree)) : String :=
  renderLines (memberLines 0 members)

/-- The tokens of a document, whose prompts are legible and measured. -/
theorem tokens?_document {members : List (String × PromptTree)} (h : (fields members).Lawful) :
    Yaml.tokens? (document members) =
      if (memberTexts members).all isKept then
        some ((fields members).tokens ++ [.streamEnd])
      else none := by
  -- What is not legible fails before the scan, what is not measured in it.
  have hkept : (memberTexts members).all isKept =
      ((memberTexts members).all isLegible && (memberTexts members).all isMeasured) := by
    rw [Bool.eq_iff_iff]
    simp [isKept, forall_and]
  cases h with
  | fields hne keys each =>
      have hlegible : (document members).toList.all Yaml.isReadable =
          (memberTexts members).all isLegible :=
        all_isReadable_memberChars 0 keys fun m hm => all_isReadable_valueChars (each m hm)
      have hscan : Yields ((memberTexts members).all isMeasured)
          (free (document members).toList .start [] (-1) [] true)
          fun pos => free [] pos (fields members).tokens.reverse (-1) [] true := by
        cases members with
        | nil => exact absurd rfl hne
        | cons m members =>
            obtain ⟨key, t⟩ := m
            have hmapping := scanned_mapping keys (fun m hm => scanned (each m hm))
              (show Yaml.Position.start.column + 0 = 2 * 0 from rfl)
              (show (-1 : Int) < (2 * 0 : Nat) by omega) [] [] .nothing
            have hchars : (document ((key, t) :: members)).toList = spaces 0 ++
                ((keyText key).toList ++ ':' ::
                  (t.valueChars 0 ++ (memberChars 0 members ++ []))) := by
              rw [List.append_nil]
              exact memberChars_cons 0 key t members
            rw [hchars]
            simpa [tokens] using hmapping
      rw [Yaml.tokens?, hlegible, hkept]
      cases (memberTexts members).all isLegible with
      | false => rfl
      | true =>
          cases hmeasured : (memberTexts members).all isMeasured with
          | true =>
              rw [hmeasured] at hscan
              obtain ⟨pos, -, hleads⟩ := hscan
              simp [Yaml.Scan.run_of_leads hleads]
          | false =>
              rw [hmeasured] at hscan
              simp [Yaml.Scan.run_of_stuck hscan]

end PromptTree

end SimStudio
