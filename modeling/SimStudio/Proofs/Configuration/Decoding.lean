import SimStudio.Proofs.Configuration.Sections
import SimStudio.Proofs.Configuration.Values

/-!
# Configurations Read Back

Nothing that a configuration tells is lost in its text: two projects with the
same text agree in everything that is written at all, and so do their servers.

A configuration is laid out by an outline. Its sections, and the fields of a
role, are rows of a table: the keys are fixed, and a row may be missing. Since
no key comes twice, the rows that are there tell which of them are missing
(`present_injective`). So equal outlines have equal rows, and each row gives one
field back.

Prompts are written in the order of their slots. That order is lost on the way
back, but the map they come from is sorted by names, and so it is known from its
entries in any order.

## Main definitions

* `present`: The rows of a table that are there.
* `RoleEmission`, `Emission`: What a configuration tells of a role, of a project.
* `Project.rows`: The sections of a configuration, as a table.

## Theorems

* `present_injective`: The rows that are there tell which are missing.
* `StringMap.eq_of_inSlotOrder`: Prompts are known from the order of their slots.
* `Project.laidOut_eq`: A configuration is laid out by its table.
* `Project.rows_injective`: A text determines its table.
* `emission_of_compile`: The text of a configuration determines what it tells.
-/

namespace SimStudio

/-- The rows of a table that are there. -/
def present (rows : List (String × Option Outline)) : List (String × Outline) :=
  rows.filterMap fun row => row.2.map fun v => (row.1, v)

theorem mem_keys_of_mem_present {rows : List (String × Option Outline)} {m : String × Outline}
    (h : m ∈ present rows) : m.1 ∈ rows.map Prod.fst := by
  obtain ⟨row, hrow, hm⟩ := List.mem_filterMap.mp h
  obtain ⟨v, _, rfl⟩ := Option.map_eq_some_iff.mp hm
  exact List.mem_map_of_mem hrow

/-- The rows that are there tell which are missing, if no key comes twice. -/
theorem present_injective {rows rows' : List (String × Option Outline)}
    (h : present rows = present rows') (hkeys : rows.map Prod.fst = rows'.map Prod.fst)
    (hnodup : (rows.map Prod.fst).Nodup) : rows = rows' := by
  induction rows generalizing rows' with
  | nil =>
      cases rows' with
      | nil => rfl
      | cons row' rest' => cases hkeys
  | cons row rest ih =>
      cases rows' with
      | nil => cases hkeys
      | cons row' rest' =>
          obtain ⟨key, o⟩ := row
          obtain ⟨key', o'⟩ := row'
          obtain ⟨rfl, hrest⟩ := List.cons.inj hkeys
          obtain ⟨hmem, hlater⟩ := List.nodup_cons.mp hnodup
          -- A row that is missing on one side only would have to come later there.
          cases o with
          | none =>
              cases o' with
              | none =>
                  have htail : present rest = present rest' := h
                  rw [ih htail hrest hlater]
              | some v' =>
                  have hthere : (key, v') ∈ present rest := by
                    rw [show present rest = (key, v') :: present rest' from h]
                    exact List.mem_cons_self
                  exact absurd (mem_keys_of_mem_present hthere) hmem
          | some v =>
              cases o' with
              | none =>
                  have hthere : (key, v) ∈ present rest' := by
                    rw [show present rest' = (key, v) :: present rest from h.symm]
                    exact List.mem_cons_self
                  refine absurd (mem_keys_of_mem_present hthere) ?_
                  rw [← hrest]
                  exact hmem
              | some v' =>
                  obtain ⟨hv, htail⟩ := List.cons.inj h
                  rw [ih htail hrest hlater, (Prod.mk.inj hv).2]

/-- The lines of a row, which are none if it is missing. -/
def rowLines (level : Nat) (key : String) : Option Outline → List Line
  | none => []
  | some v => Outline.keyLine level key v :: Outline.nestedLines (level + 1) v

theorem memberLines_present_nil (level : Nat) : Outline.memberLines level (present []) = [] := rfl

theorem memberLines_present_cons (level : Nat) (key : String) (o : Option Outline)
    (rest : List (String × Option Outline)) :
    Outline.memberLines level (present ((key, o) :: rest)) =
      rowLines level key o ++ Outline.memberLines level (present rest) := by
  cases o with
  | none => rfl
  | some v => exact Outline.memberLines.eq_2 _ _ _ _

/-- Fields at a key, unless there are none. -/
def fields? (members : List (String × Outline)) : Option Outline :=
  if members.isEmpty then none else some (.fields members)

/-- Items at a key, unless there are none. -/
def items? (each : List Outline) : Option Outline :=
  if each.isEmpty then none else some (.items each)

theorem fields?_injective {xs ys : List (String × Outline)} (h : fields? xs = fields? ys) :
    xs = ys := by
  rw [fields?, fields?] at h
  cases xs with
  | nil =>
      cases ys with
      | nil => rfl
      | cons y ys => cases h
  | cons x xs =>
      cases ys with
      | nil => cases h
      | cons y ys => exact Outline.fields.inj (Option.some.inj h)

theorem items?_injective {xs ys : List Outline} (h : items? xs = items? ys) : xs = ys := by
  rw [items?, items?] at h
  cases xs with
  | nil =>
      cases ys with
      | nil => rfl
      | cons y ys => cases h
  | cons x xs =>
      cases ys with
      | nil => cases h
      | cons y ys => exact Outline.items.inj (Option.some.inj h)

theorem rowLines_fields? (level : Nat) (key : String) (members : List (String × Outline)) :
    rowLines level key (fields? members) =
      headed level key (Outline.memberLines (level + 1) members) := by
  cases members with
  | nil => rfl
  | cons m rest =>
      obtain ⟨k, v⟩ := m
      rw [fields?, if_neg (by simp), headed, if_neg (by simp [Outline.memberLines]), rowLines,
        Outline.keyLine_eq_heading level key rfl, Outline.nestedLines]

/-- Items that are objects are laid out as marked blocks. -/
theorem rowLines_items? (level : Nat) (key : String) {α : Type}
    (members : α → List (String × Outline)) (xs : List α) (hne : ∀ x ∈ xs, members x ≠ []) :
    rowLines level key (items? (xs.map fun x => .fields (members x))) =
      headed level key (xs.flatMap fun x =>
        markFirst (Outline.memberLines (level + 2) (members x))) := by
  have hlines : ∀ xs : List α, Outline.itemLines (level + 1) (xs.map fun x => .fields (members x)) =
      xs.flatMap fun x => markFirst (Outline.memberLines (level + 2) (members x)) := by
    intro xs
    induction xs with
    | nil => rfl
    | cons x rest ih =>
        rw [List.map_cons, Outline.itemLines, ih, Outline.itemBlock, List.flatMap_cons]
  cases xs with
  | nil => rfl
  | cons x rest =>
      have hfirst : ((x :: rest).flatMap fun x =>
          markFirst (Outline.memberLines (level + 2) (members x))).isEmpty = false := by
        rw [List.flatMap_cons]
        cases hm : members x with
        | nil => exact absurd hm (hne x List.mem_cons_self)
        | cons m ms =>
            obtain ⟨k, v⟩ := m
            rw [Outline.memberLines]
            rfl
      rw [items?, if_neg (by simp), headed, hfirst, if_neg Bool.false_ne_true, rowLines,
        Outline.keyLine_eq_heading level key rfl, Outline.nestedLines, hlines]

/-- The lines of a quoted text, as a row. -/
theorem quotedField_eq (level : Nat) (key text : String) :
    [quotedField level key text] = rowLines level key (some (.line (quote text))) := by
  rw [rowLines, Outline.keyLine_line, Outline.nestedLines, quotedField]

theorem bareField_eq (level : Nat) (key text : String) :
    [bareField level key text] = rowLines level key (some (.line text)) := by
  rw [rowLines, Outline.keyLine_line, Outline.nestedLines]

/-- The text of words on one line. -/
def wordsText (ns : List UInt32) : String := "[" ++ ", ".intercalate (wordTexts ns) ++ "]"

theorem inlineField_eq (level : Nat) (key : String) (ns : List UInt32) :
    [inlineField level key (wordTexts ns)] = rowLines level key (some (.line (wordsText ns))) :=
  bareField_eq level key (wordsText ns)

theorem proseField_eq_rowLines (level : Nat) (key text : String) :
    proseField level key text = rowLines level key (some (Json.proseOutline text)) :=
  Outline.proseField_eq_lines level key text

/-- The fields of a partial. -/
def partialRows (p : PromptPartial) : List (String × Option Outline) :=
  [("name", some (.line (quote p.name))), ("content", some (Json.proseOutline p.content))]

/-- The prompts of a role. -/
def promptOutlines (prompts : List (String × String)) : List (String × Outline) :=
  (inSlotOrder prompts).map fun m => (m.1, Json.proseOutline m.2)

/-- The fields of a role. -/
def roleRows (r : Role) : List (String × Option Outline) :=
  [("role_id", some (.line (toString r.id.toNat))), ("name", some (.line (quote r.name))),
    ("llm_type", some (.line (quote r.model))),
    ("llm_params", fields? (Json.memberOutlines r.parameters.entries)),
    ("number_of_agents", some (.line (toString r.count.toNat))),
    ("prompts", fields? (promptOutlines r.prompts.entries)),
    ("task_phases", if (r.phases.getD []).isEmpty then none
      else some (.line (wordsText (r.phases.getD []))))]

/-- The fields of an agent. -/
def agentRows (id : UInt32) : List (String × Option Outline) :=
  [("id", some (.line (toString id.toNat)))]

/-- The fields of a field of the shared state. -/
def stateFieldRows (f : StateField) : List (String × Option Outline) :=
  [("name", some (.line (quote f.name))), ("type", some (.line (quote f.type))),
    ("default", if (f.default.getD .null).isNull then none else some (f.default.getD .null).outline)]

/-- The namespaces of the shared state. -/
def stateRows (s : StateSchema) : List (String × Option Outline) :=
  StateNamespace.all.map fun n =>
    (n.sectionKey, items? ((s.fields n).map fun f => .fields (present (stateFieldRows f))))

/-- A setting of a manager or runner. -/
def Setting.outline : Setting → Outline
  | text s => .line (quote s)
  | int i => .line (toString i)
  | float x => .line (Manager.delayLayout.text x)
  | words ns => .line (wordsText ns)

/-- The settings that every runner has. -/
def runnerRows (m : Manager) (gameId : Option Int64) (server : Server) :
    List (String × Option Outline) :=
  [("type", some (.line (quote (RunnerKind.forManager m).typeName))),
    ("game_id", some (.line (toString ((gameId.map Int64.toInt).getD 0)))),
    ("hostname", some (.line (quote server.hostname))),
    ("port", some (.line (toString server.port.toNat))),
    ("path", some (.line (quote server.path))),
    ("continuous_phases", match m with
      | .turnBased => none
      | .hybrid phases _ _ => some (.line (wordsText phases))),
    ("max_action_delay", match m with
      | .turnBased => none
      | .hybrid _ maxDelay _ => some (.line (Manager.delayLayout.text maxDelay))),
    ("min_action_delay", match m with
      | .turnBased => none
      | .hybrid _ _ minDelay => some (.line (Manager.delayLayout.text minDelay)))]

/-- The sections of a configuration, as a table. -/
def Project.rows (p : Project) (server : Server) (agents : List UInt32) :
    List (String × Option Outline) :=
  [("name", some (.line (quote p.name))),
    ("description", if (p.description.getD "").isEmpty then none
      else some (.line (quote (p.description.getD "")))),
    ("game_id", p.gameId.map fun i => .line (toString i.toInt)),
    ("prompt_partials", items? (p.partials.map fun x => .fields (present (partialRows x)))),
    ("agent_roles", items? (p.roles.map fun r => .fields (present (roleRows r)))),
    ("agents", items? (agents.map fun id => .fields (present (agentRows id)))),
    ("state", fields? (present (stateRows p.state))),
    ("manager", some (.fields [("type", .line (quote p.manager.typeName))])),
    ("runner", some (.fields (present (runnerRows p.manager p.gameId server))))]

theorem partialLines_eq (p : PromptPartial) :
    partialLines p = markFirst (Outline.memberLines 2 (present (partialRows p))) := by
  rw [partialLines, partialRows, memberLines_present_cons, memberLines_present_cons,
    memberLines_present_nil, ← quotedField_eq, ← proseField_eq_rowLines, List.append_nil]
  rfl

theorem flatMap_proseField (level : Nat) (prompts : List (String × String)) :
    (prompts.flatMap fun m => proseField level m.1 m.2) =
      Outline.memberLines level (prompts.map fun m => (m.1, Json.proseOutline m.2)) := by
  induction prompts with
  | nil => rfl
  | cons m rest ih =>
      rw [List.flatMap_cons, ih, List.map_cons, Outline.memberLines, Outline.proseField_eq_lines,
        List.cons_append]

theorem roleLines_eq (r : Role) :
    roleLines r = markFirst (Outline.memberLines 2 (present (roleRows r))) := by
  have hrows : Outline.memberLines 2 (present (roleRows r)) =
      [bareField 2 "role_id" (toString r.id.toNat), quotedField 2 "name" r.name,
        quotedField 2 "llm_type" r.model] ++
      headed 2 "llm_params" (memberLines 3 r.parameters.entries) ++
      [bareField 2 "number_of_agents" (toString r.count.toNat)] ++
      headed 2 "prompts" ((inSlotOrder r.prompts.entries).flatMap fun m => proseField 3 m.1 m.2) ++
      rowLines 2 "task_phases" (if (r.phases.getD []).isEmpty then none
        else some (.line (wordsText (r.phases.getD [])))) := by
    rw [roleRows]
    simp only [memberLines_present_cons, memberLines_present_nil, List.append_nil,
      rowLines_fields?, ← bareField_eq, promptOutlines, ← flatMap_proseField, memberLines_eq,
      quotedField]
    simp only [List.append_assoc, List.cons_append, List.nil_append]
  rw [hrows, roleLines]
  obtain ⟨id, name, model, parameters, count, prompts, phases⟩ := r
  cases phases with
  | none => rfl
  | some ns =>
      cases ns with
      | nil => rfl
      | cons n ns =>
          rw [Option.getD_some, List.isEmpty_cons, if_neg Bool.false_ne_true, ← inlineField_eq]

theorem agentLines_eq (id : UInt32) :
    agentLines id = markFirst (Outline.memberLines 2 (present (agentRows id))) := by
  rw [agentLines, agentRows, memberLines_present_cons, memberLines_present_nil, ← bareField_eq,
    List.append_nil]

theorem fieldLines_eq (f : StateField) :
    fieldLines f = markFirst (Outline.memberLines 3 (present (stateFieldRows f))) := by
  have hdefault : ∀ v : Json, valueField 3 "default" v =
      rowLines 3 "default" (if v.isNull then none else some v.outline) := by
    intro v
    rw [valueField_eq]
    cases v.isNull <;> rfl
  rw [fieldLines, stateFieldRows, memberLines_present_cons, memberLines_present_cons,
    memberLines_present_cons, memberLines_present_nil, ← quotedField_eq, ← quotedField_eq,
    ← hdefault, List.append_nil]
  obtain ⟨name, type, default⟩ := f
  cases default <;> rfl

/-- The namespaces of the shared state are laid out one after the other. -/
theorem stateLines_eq (s : StateSchema) :
    stateLines s = Outline.memberLines 1 (present (stateRows s)) := by
  have hblock : ∀ f : StateField, markFirst (Outline.memberLines 3 (present (stateFieldRows f))) =
      fieldLines f := fun f => (fieldLines_eq f).symm
  have hne : ∀ f : StateField, present (stateFieldRows f) ≠ [] := fun f => List.cons_ne_nil _ _
  rw [stateLines, stateRows]
  induction StateNamespace.all with
  | nil => rfl
  | cons n rest ih =>
      rw [List.flatMap_cons, ih, List.map_cons, memberLines_present_cons,
        rowLines_items? 1 n.sectionKey _ _ fun f _ => hne f]
      simp only [hblock]

theorem settingLine_eq (key : String) (v : Setting) :
    [settingLine key v] = rowLines 1 key (some v.outline) := by
  cases v with
  | text s => exact quotedField_eq 1 key s
  | int i => exact bareField_eq 1 key _
  | float x => exact bareField_eq 1 key _
  | words ns => exact inlineField_eq 1 key ns

theorem settingLines_eq (key : String) (settings : List (String × Setting)) :
    settingLines key settings = rowLines 0 key
      (some (.fields (settings.map fun m => (m.1, m.2.outline)))) := by
  have hrows : ∀ settings : List (String × Setting),
      Outline.memberLines 1 (settings.map fun m => (m.1, m.2.outline)) =
        settings.map fun m => settingLine m.1 m.2 := by
    intro settings
    induction settings with
    | nil => rfl
    | cons m rest ih =>
        have hline := settingLine_eq m.1 m.2
        rw [rowLines] at hline
        rw [List.map_cons, List.map_cons, Outline.memberLines, ih, ← List.cons_append, ← hline]
        rfl
  rw [rowLines, Outline.keyLine_eq_heading 0 key rfl, Outline.nestedLines, hrows]
  rfl

theorem outline_runnerSettings (m : Manager) (gameId : Option Int64) (server : Server) :
    ((runnerSettings m gameId server).map fun x => (x.1, x.2.outline)) =
      present (runnerRows m gameId server) := by
  cases m <;> rfl

/-- A configuration is laid out by its table. -/
theorem Project.laidOut_eq (p : Project) (server : Server) (agents : List UInt32) :
    p.laidOut server agents = Outline.memberLines 0 (present (p.rows server agents)) := by
  have hpartials := rowLines_items? 0 "prompt_partials" (fun x => present (partialRows x))
    p.partials fun _ _ => List.cons_ne_nil _ _
  have hroles := rowLines_items? 0 "agent_roles" (fun r => present (roleRows r))
    p.roles fun _ _ => List.cons_ne_nil _ _
  have hagents := rowLines_items? 0 "agents" (fun id => present (agentRows id))
    agents fun _ _ => List.cons_ne_nil _ _
  -- The first lines are laid out one by one; an empty description leaves none.
  have hidentity : identityLines p = rowLines 0 "name" (some (.line (quote p.name))) ++
      (rowLines 0 "description" (if (p.description.getD "").isEmpty then none
        else some (.line (quote (p.description.getD "")))) ++
      rowLines 0 "game_id" (p.gameId.map fun i => .line (toString i.toInt))) := by
    rw [← quotedField_eq, identityLines, List.singleton_append]
    refine congrArg (_ :: ·) ?_
    congr 1
    · cases p.description with
      | none => rfl
      | some d =>
          simp only [Option.getD_some]
          split
          · rfl
          · exact quotedField_eq 0 "description" d
    · cases p.gameId with
      | none => rfl
      | some i => exact bareField_eq 0 "game_id" _
  rw [rows]
  simp only [memberLines_present_cons, memberLines_present_nil, hpartials, hroles, hagents,
    rowLines_fields?, Nat.zero_add, ← partialLines_eq, ← roleLines_eq, ← agentLines_eq,
    ← stateLines_eq]
  rw [laidOut, hidentity, settingLines_eq, settingLines_eq, outline_runnerSettings]
  simp only [List.append_assoc, List.append_nil]
  rfl

/-- Every row that is there is lawful. -/
def LawfulRows (rows : List (String × Option Outline)) : Prop :=
  ∀ row ∈ rows, ∀ v ∈ row.2, v.Lawful

theorem LawfulRows.present {rows : List (String × Option Outline)} (h : LawfulRows rows) :
    ∀ m ∈ present rows, m.2.Lawful := by
  intro m hm
  obtain ⟨row, hrow, hm⟩ := List.mem_filterMap.mp hm
  obtain ⟨v, hv, rfl⟩ := Option.map_eq_some_iff.mp hm
  exact h row hrow v hv

theorem LawfulRows.nil : LawfulRows [] := fun _ hrow => absurd hrow List.not_mem_nil

theorem LawfulRows.cons {key : String} {o : Option Outline} {rest : List (String × Option Outline)}
    (h : ∀ v ∈ o, v.Lawful) (hrest : LawfulRows rest) : LawfulRows ((key, o) :: rest) :=
  List.forall_mem_cons.mpr ⟨h, hrest⟩

theorem lawful_some {v : Outline} (h : v.Lawful) : ∀ w ∈ some v, w.Lawful := fun _ hw =>
  Option.some.inj hw ▸ h

theorem lawful_ite {b : Bool} {v : Outline} (h : b = false → v.Lawful) :
    ∀ w ∈ if b then none else some v, w.Lawful := by
  intro w hw
  cases b with
  | true => cases hw
  | false => exact lawful_some (h rfl) w hw

theorem lawful_fields? {members : List (String × Outline)} (h : ∀ m ∈ members, m.2.Lawful) :
    ∀ v ∈ fields? members, v.Lawful :=
  lawful_ite fun hne => .fields (List.isEmpty_eq_false_iff.mp hne) h

theorem lawful_items? {α : Type} {rows : α → List (String × Option Outline)} {xs : List α}
    (hne : ∀ x, present (rows x) ≠ []) (h : ∀ x, LawfulRows (rows x)) :
    ∀ v ∈ items? (xs.map fun x => .fields (present (rows x))), v.Lawful := by
  refine lawful_ite fun hempty => .items (List.isEmpty_eq_false_iff.mp hempty) ?_ ?_
  · intro v hv
    obtain ⟨x, _, rfl⟩ := List.mem_map.mp hv
    trivial
  · intro v hv
    obtain ⟨x, _, rfl⟩ := List.mem_map.mp hv
    exact .fields (hne x) (h x).present

theorem lawful_quoted (s : String) : ∀ v ∈ some (Outline.line (quote s)), v.Lawful :=
  lawful_some (Json.lawful_line_quote s)

/-- A text of number marks is not the header of a block. -/
theorem lawful_marks {text : String} (h : ∀ c ∈ text.toList, isNumberMark c = true) :
    ∀ v ∈ some (Outline.line text), v.Lawful := by
  refine lawful_some (.line fun hbar => ?_)
  exact absurd (h '|' (List.mem_of_mem_head? hbar)) (by decide)

theorem lawful_int (i : Int) : ∀ v ∈ some (Outline.line (toString i)), v.Lawful :=
  lawful_marks fun _ => isNumberMark_of_mem_intText

theorem lawful_nat (n : Nat) : ∀ v ∈ some (Outline.line (toString n)), v.Lawful :=
  lawful_int n

theorem lawful_words (ns : List UInt32) : ∀ v ∈ some (Outline.line (wordsText ns)), v.Lawful := by
  refine lawful_some (.line ?_)
  rw [wordsText, String.toList_append, String.toList_append]
  exact fun h => absurd (Option.some.inj h) (by decide)

theorem lawful_proseOutline (s : String) : ∀ v ∈ some (Json.proseOutline s), v.Lawful :=
  lawful_some (Json.lawful_proseOutline s)

theorem lawful_partialRows (p : PromptPartial) : LawfulRows (partialRows p) :=
  .cons (lawful_quoted _) (.cons (lawful_proseOutline _) .nil)

theorem lawful_roleRows (r : Role) : LawfulRows (roleRows r) := by
  have hparameters := Json.lawful_memberOutlines fun m (_ : m ∈ r.parameters.entries) =>
    m.2.laidOut
  have hprompts : ∀ m ∈ promptOutlines r.prompts.entries, m.2.Lawful := by
    intro m hm
    obtain ⟨x, _, rfl⟩ := List.mem_map.mp hm
    exact Json.lawful_proseOutline x.2
  exact .cons (lawful_nat _) (.cons (lawful_quoted _) (.cons (lawful_quoted _)
    (.cons (lawful_fields? hparameters) (.cons (lawful_nat _) (.cons (lawful_fields? hprompts)
      (.cons (lawful_ite fun _ => lawful_words _ _ rfl) .nil))))))

theorem lawful_agentRows (id : UInt32) : LawfulRows (agentRows id) :=
  .cons (lawful_nat _) .nil

theorem lawful_stateFieldRows (f : StateField) : LawfulRows (stateFieldRows f) :=
  .cons (lawful_quoted _) (.cons (lawful_quoted _)
    (.cons (lawful_ite fun hnull => (f.default.getD .null).laidOut.atKey hnull) .nil))

theorem lawful_stateRows (s : StateSchema) : LawfulRows (stateRows s) := by
  intro row hrow
  obtain ⟨n, _, rfl⟩ := List.mem_map.mp hrow
  exact lawful_items? (fun _ => List.cons_ne_nil _ _) lawful_stateFieldRows

theorem lawful_runnerRows (m : Manager) (gameId : Option Int64) (server : Server) :
    LawfulRows (runnerRows m gameId server) := by
  have hdelay : ∀ x : Binary64, ∀ v ∈ some (Outline.line (Manager.delayLayout.text x)),
      v.Lawful := fun x => lawful_marks fun _ => FloatLayout.isNumberMark_of_mem_text
  have hnone : ∀ v ∈ (none : Option Outline), v.Lawful := fun _ hv => nomatch hv
  cases m with
  | turnBased =>
      exact .cons (lawful_quoted _) (.cons (lawful_int _) (.cons (lawful_quoted _)
        (.cons (lawful_nat _) (.cons (lawful_quoted _)
          (.cons hnone (.cons hnone (.cons hnone .nil)))))))
  | hybrid phases maxDelay minDelay =>
      exact .cons (lawful_quoted _) (.cons (lawful_int _) (.cons (lawful_quoted _)
        (.cons (lawful_nat _) (.cons (lawful_quoted _)
          (.cons (lawful_words _) (.cons (hdelay _) (.cons (hdelay _) .nil)))))))

/-- The texts of a configuration cannot be taken for something else. -/
theorem lawful_rows (p : Project) (server : Server) (agents : List UInt32) :
    LawfulRows (p.rows server agents) := by
  have hgame : ∀ v ∈ p.gameId.map fun i => Outline.line (toString i.toInt), v.Lawful := by
    cases p.gameId with
    | none => exact fun _ hv => nomatch hv
    | some i => exact lawful_int _
  have htype : (Outline.fields [("type", .line (quote p.manager.typeName))]).Lawful := by
    refine .fields (List.cons_ne_nil _ _) fun m hm => ?_
    rw [List.mem_singleton.mp hm]
    exact Json.lawful_line_quote _
  exact .cons (lawful_quoted _) (.cons (lawful_ite fun _ => Json.lawful_line_quote _)
    (.cons hgame (.cons (lawful_items? (fun _ => List.cons_ne_nil _ _) lawful_partialRows)
      (.cons (lawful_items? (fun _ => List.cons_ne_nil _ _) lawful_roleRows)
        (.cons (lawful_items? (fun _ => List.cons_ne_nil _ _) lawful_agentRows)
          (.cons (lawful_fields? (lawful_stateRows p.state).present)
            (.cons (lawful_some htype)
              (.cons (lawful_some (.fields (List.cons_ne_nil _ _)
                (lawful_runnerRows _ _ _).present)) .nil))))))))

theorem quote_injective {s t : String} (h : quote s = quote t) : s = t :=
  (quote_unique (congrArg (String.toList · ++ []) h)).1

theorem word_injective {m n : UInt32} (h : toString m.toNat = toString n.toNat) : m = n := by
  have hcast : (m.toNat : Int) = n.toNat := intText_injective h
  exact UInt32.toNat_inj.mp (by omega)

/-- Words on one line are the items of a list of numbers. -/
theorem wordsText_injective {ms ns : List UInt32} (h : wordsText ms = wordsText ns) : ms = ns := by
  have hfits : ∀ n : UInt32, -2 ^ 63 ≤ (n.toNat : Int) ∧ (n.toNat : Int) < 2 ^ 64 := by
    intro n
    have hlt := n.toNat_lt
    omega
  have hinline : ∀ ns : List UInt32,
      wordsText ns = Json.inlineText (ns.map fun n => .number (.int n.toNat (hfits n))) := by
    intro ns
    rw [wordsText, Json.inlineText, wordTexts, List.map_map]
    rfl
  rw [hinline, hinline] at h
  refine (List.map_inj_right fun m n hmn => ?_).mp (Json.inline_injective h)
  have hcast : (m.toNat : Int) = n.toNat := (JsonNumber.int.inj (Json.number.inj hmn))
  exact UInt32.toNat_inj.mp (by omega)

/-- A sorted list of entries is known from its entries in any order. -/
theorem Entries.Sorted.eq_of_perm {α : Type} {xs ys : List (String × α)} (hxs : Entries.Sorted xs)
    (hys : Entries.Sorted ys) (h : xs.Perm ys) : xs = ys :=
  h.eq_of_pairwise (fun _ _ _ _ hab hba => absurd hba (String.lt_asymm hab)) hxs hys

/-- Prompts are known from the order of their slots. -/
theorem StringMap.eq_of_inSlotOrder {m n : StringMap String}
    (h : inSlotOrder m.entries = inSlotOrder n.entries) : m = n := by
  have hm : (inSlotOrder m.entries).Perm m.entries := List.mergeSort_perm _ _
  have hn : (inSlotOrder n.entries).Perm n.entries := List.mergeSort_perm _ _
  rw [h] at hm
  exact StringMap.ext (m.sorted.eq_of_perm n.sorted (hm.symm.trans hn))

theorem promptOutlines_injective {m n : StringMap String}
    (h : promptOutlines m.entries = promptOutlines n.entries) : m = n := by
  refine StringMap.eq_of_inSlotOrder ((List.map_inj_right fun x y hxy => ?_).mp h)
  obtain ⟨hslot, htext⟩ := Prod.mk.inj hxy
  exact Prod.ext hslot (Json.textOutline_injective (Json.proseOutline_cases x.2)
    (Json.proseOutline_cases y.2) htext)

/-- What a configuration tells of a role. -/
structure RoleEmission where
  id : UInt32
  name : String
  model : String
  /-- Without members that are null. -/
  parameters : List (String × Json)
  count : UInt32
  prompts : StringMap String
  phases : List UInt32

/-- What a configuration tells of a role: absent phases are none at all. -/
def Role.emission (r : Role) : RoleEmission where
  id := r.id
  name := r.name
  model := r.model
  parameters := Json.pruneMembers r.parameters.entries
  count := r.count
  prompts := r.prompts
  phases := r.phases.getD []

/-- What a configuration tells of a project. -/
structure Emission where
  name : String
  description : String
  gameId : Option Int64
  /-- Names and contents. -/
  partials : List (String × String)
  roles : List RoleEmission
  /-- Names, types and defaults, without members that are null. -/
  state : StateNamespace → List (String × String × Json)
  manager : Manager

/-- What a configuration tells of a project: an absent description is an empty one,
    and an absent default is null. -/
def Project.emission (p : Project) : Emission where
  name := p.name
  description := p.description.getD ""
  gameId := p.gameId
  partials := p.partials.map fun x => (x.name, x.content)
  roles := p.roles.map Role.emission
  state n := (p.state.fields n).map fun f => (f.name, f.type, (f.default.getD .null).prune)
  manager := p.manager

theorem partialRows_injective {x y : PromptPartial}
    (h : present (partialRows x) = present (partialRows y)) :
    (x.name, x.content) = (y.name, y.content) := by
  have hrows := present_injective h rfl (by simp [partialRows])
  simp only [partialRows, List.cons.injEq, Prod.mk.injEq, true_and, and_true, Option.some.injEq,
    Outline.line.injEq] at hrows
  obtain ⟨hname, hcontent⟩ := hrows
  rw [quote_injective hname, Json.textOutline_injective (Json.proseOutline_cases x.content)
    (Json.proseOutline_cases y.content) hcontent]

/-- A text at a key that is left out when there is nothing to tell. -/
theorem ite_line_injective {α : Type} {text : α → String} {isEmpty : α → Bool} (empty : α) {x y : α}
    (hempty : ∀ z, isEmpty z = true → z = empty) (htext : ∀ z w, text z = text w → z = w)
    (h : (if isEmpty x then none else some (Outline.line (text x))) =
      if isEmpty y then none else some (Outline.line (text y))) : x = y := by
  split at h <;> split at h
  · rename_i hx hy
    rw [hempty x hx, hempty y hy]
  · cases h
  · cases h
  · exact htext x y (Outline.line.inj (Option.some.inj h))

theorem roleRows_injective {r r' : Role} (h : present (roleRows r) = present (roleRows r')) :
    r.emission = r'.emission := by
  have hrows := present_injective h rfl (by simp [roleRows])
  simp only [roleRows, List.cons.injEq, Prod.mk.injEq, true_and, and_true, Option.some.injEq,
    Outline.line.injEq] at hrows
  obtain ⟨hid, hname, hmodel, hparameters, hcount, hprompts, hphases⟩ := hrows
  have hphases := ite_line_injective [] (fun _ => List.isEmpty_iff.mp)
    (fun _ _ => wordsText_injective) hphases
  rw [Role.emission, Role.emission, word_injective hid, quote_injective hname,
    quote_injective hmodel, Json.memberOutlines_injective (fields?_injective hparameters),
    word_injective hcount, promptOutlines_injective (fields?_injective hprompts), hphases]

theorem Json.eq_null_of_isNull {v : Json} (h : v.isNull = true) : v = .null := by
  cases v with
  | null => rfl
  | _ => cases h

theorem stateFieldRows_injective {f g : StateField}
    (h : present (stateFieldRows f) = present (stateFieldRows g)) :
    (f.name, f.type, (f.default.getD .null).prune) =
      (g.name, g.type, (g.default.getD .null).prune) := by
  have hrows := present_injective h rfl (by simp [stateFieldRows])
  simp only [stateFieldRows, List.cons.injEq, Prod.mk.injEq, true_and, and_true,
    Option.some.injEq, Outline.line.injEq] at hrows
  obtain ⟨hname, htype, hdefault⟩ := hrows
  have hprune : (f.default.getD .null).prune = (g.default.getD .null).prune := by
    split at hdefault <;> split at hdefault
    · rename_i hf hg
      rw [Json.eq_null_of_isNull hf, Json.eq_null_of_isNull hg]
    · cases hdefault
    · cases hdefault
    · rename_i hf hg
      exact (Json.recovered _).atKey _ (Bool.not_eq_true _ ▸ hf) (Bool.not_eq_true _ ▸ hg)
        (Option.some.inj hdefault)
  rw [quote_injective hname, quote_injective htype, hprune]

theorem items_rows_injective {α β : Type} {rows : α → List (String × Option Outline)}
    {f : α → β} (hrows : ∀ x y, present (rows x) = present (rows y) → f x = f y) {xs ys : List α}
    (h : items? (xs.map fun x => .fields (present (rows x))) =
      items? (ys.map fun x => .fields (present (rows x)))) : xs.map f = ys.map f :=
  Json.map_eq_of_map_eq (fun x _ y _ hxy => hrows x y (Outline.fields.inj hxy))
    (items?_injective h)

theorem stateRows_injective {s t : StateSchema} (h : present (stateRows s) = present (stateRows t))
    (n : StateNamespace) :
    ((s.fields n).map fun f => (f.name, f.type, (f.default.getD .null).prune)) =
      (t.fields n).map fun f => (f.name, f.type, (f.default.getD .null).prune) := by
  have hkeys : ∀ s : StateSchema, (stateRows s).map Prod.fst =
      StateNamespace.all.map StateNamespace.sectionKey := fun s => by
    rw [stateRows, List.map_map]
    rfl
  have hrows := present_injective h ((hkeys s).trans (hkeys t).symm) (by rw [hkeys]; decide)
  have hn : n ∈ StateNamespace.all := by cases n <;> decide
  have hrow := List.map_inj_left.mp hrows n hn
  exact items_rows_injective (fun _ _ => stateFieldRows_injective) (Prod.mk.inj hrow).2

theorem runnerRows_injective {m m' : Manager} {gameId gameId' : Option Int64} {s t : Server}
    (h : present (runnerRows m gameId s) = present (runnerRows m' gameId' t)) :
    m = m' ∧ s = t := by
  have hrows := present_injective h rfl (by simp [runnerRows])
  simp only [runnerRows, List.cons.injEq, Prod.mk.injEq, true_and, and_true, Option.some.injEq,
    Outline.line.injEq] at hrows
  obtain ⟨-, -, hhostname, hport, hpath, hphases, hmax, hmin⟩ := hrows
  constructor
  -- Two kinds of managers never have the same rows: only one of them has phases.
  · cases m with
    | turnBased =>
        cases m' with
        | turnBased => rfl
        | hybrid => cases hphases
    | hybrid phases maxDelay minDelay =>
        cases m' with
        | turnBased => cases hphases
        | hybrid phases' maxDelay' minDelay' =>
            rw [wordsText_injective (Outline.line.inj (Option.some.inj hphases)),
              FloatLayout.text_injective (Outline.line.inj (Option.some.inj hmax)),
              FloatLayout.text_injective (Outline.line.inj (Option.some.inj hmin))]
  · have hcast : (s.port.toNat : Int) = t.port.toNat := intText_injective hport
    have hname : s.hostname = t.hostname := quote_injective hhostname
    have hnumber : s.port = t.port := UInt16.toNat_inj.mp (by omega)
    have hplace : s.path = t.path := quote_injective hpath
    cases s
    cases t
    cases hname
    cases hnumber
    cases hplace
    rfl

/-- The text of a table determines it: equal texts have equal lines, and equal lines
    have equal outlines. -/
theorem Project.rows_injective {p q : Project} {s t : Server} {agents agents' : List UInt32}
    (h : renderLines (p.laidOut s agents) = renderLines (q.laidOut t agents')) :
    p.rows s agents = q.rows t agents' := by
  have hends := congrArg String.toList h
  rw [toList_renderLines, toList_renderLines] at hends
  have hsingle : ∀ (p : Project) (server : Server) (agents : List UInt32),
      ∀ run ∈ (p.laidOut server agents).map (fun l => l.render.toList), '\n' ∉ run := by
    intro p server agents run hrun
    obtain ⟨l, hl, rfl⟩ := List.mem_map.mp hrun
    exact (p.fits_laidOut server agents l hl).newline_not_mem_render
  have hlines := Text.ended_injective (hsingle p s agents) (hsingle q t agents') hends
  rw [Project.laidOut_eq, Project.laidOut_eq] at hlines
  have houtline := Outline.rendered_memberLines_injective (lawful_rows p s agents).present
    (lawful_rows q t agents').present hlines
  exact present_injective houtline rfl (by simp [Project.rows])

/-- The text of a configuration determines what it tells, and the server it is
    for. Nothing that is emitted is lost. -/
theorem emission_of_compile (p q : Project) (s t : Server) (text : String)
    (hp : p.compile s = .ok text) (hq : q.compile t = .ok text) :
    s = t ∧ p.emission = q.emission := by
  obtain ⟨agents, -, htext⟩ := Project.compile_eq_ok_iff.mp hp
  obtain ⟨agents', -, htext'⟩ := Project.compile_eq_ok_iff.mp hq
  have hrows := Project.rows_injective (htext.symm.trans htext')
  simp only [Project.rows, List.cons.injEq, Prod.mk.injEq, true_and, and_true, Option.some.injEq,
    Outline.line.injEq, Outline.fields.injEq] at hrows
  obtain ⟨hname, hdescription, hgame, hpartials, hroles, -, hstate, -, hrunner⟩ := hrows
  have hdescription := ite_line_injective "" (fun _ => String.isEmpty_iff.mp)
    (fun _ _ => quote_injective) hdescription
  have hgame := Option.map_inj_right (fun i j hij =>
    Int64.toInt_inj.mp (intText_injective (Outline.line.inj hij))) |>.mp hgame
  obtain ⟨hmanager, hserver⟩ := runnerRows_injective hrunner
  refine ⟨hserver, ?_⟩
  rw [Project.emission, Project.emission, quote_injective hname, hdescription, hgame, hmanager,
    items_rows_injective (fun _ _ => partialRows_injective) hpartials,
    items_rows_injective (fun _ _ => roleRows_injective) hroles]
  refine congrArg (Emission.mk _ _ _ _ _ · _) (funext fun n => ?_)
  exact stateRows_injective (fields?_injective hstate) n

/-- A project with nothing in it that could be left out. -/
def Project.spare : Project where
  name := "a: b"
  roles := [{ id := 1, name := "r", count := 2, prompts := .ofList [("user", "x\n\n")] }]
  state := { publicFields := [{ name := "round", type := "int" }] }

/-- The same project with an empty description, an empty list of phases, a null
    parameter and a null default. -/
def Project.padded : Project where
  name := "a: b"
  description := some ""
  roles := [{
    id := 1
    name := "r"
    count := 2
    parameters := .ofList [("seed", .null)]
    prompts := .ofList [("user", "x\n\n")]
    phases := some [] }]
  state := { publicFields := [{ name := "round", type := "int", default := some .null }] }

/-- What is left out of a text makes no difference to what it tells. -/
theorem emission_of_compile_padded :
    ∃ text, Project.spare.compile {} = .ok text ∧ Project.padded.compile {} = .ok text ∧
      Project.spare.emission = Project.padded.emission :=
  ⟨_, rfl, rfl, (emission_of_compile Project.spare Project.padded {} {} _ rfl rfl).2⟩

end SimStudio
