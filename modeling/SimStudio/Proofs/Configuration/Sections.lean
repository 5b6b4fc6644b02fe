import Mathlib.Algebra.GroupWithZero.Nat
import SimStudio.Configuration
import SimStudio.Proofs.Configuration.Lines

/-!
# Sections of a Configuration

No text that a user supplies can break out of the section it stands in. The
lines of a configuration that are not indented are the headings of its
sections and the three fields that tell what the project is called, each at
most once and in a fixed order; which of them are there is known from the
project alone.

A line breaks out if it holds a line end or if it begins too far to the left.
`Line.Fits` rules out both, so all there is to do is to see that whatever
stands below a heading fits level one.

## Main definitions

* `beginsSection`: A line that is not empty and not indented.
* `Project.sectionLines`: The lines that begin the sections of a project.

## Theorems

* `poolFrom_isEmpty`: There are no agents exactly if all counts are zero.
* `filter_headed`: A section shows its heading only.
* `sections_of_compile`: The lines that are not indented are those that begin
  the sections.
-/

namespace SimStudio

/-- Whether a line begins a section: it is not empty and not indented. -/
def beginsSection (line : List Char) : Bool := !line.isEmpty && !"  ".toList.isPrefixOf line

/-- A line that is there under a condition. -/
def lineIf (condition : Bool) (line : String) : List String := if condition then [line] else []

/-- The lines that begin the sections of a project, in their order. -/
def Project.sectionLines (p : Project) : List String :=
  ["name: " ++ quote p.name] ++
    (match p.description with
      | some d => lineIf (!d.isEmpty) ("description: " ++ quote d)
      | none => []) ++
    (match p.gameId with
      | some i => ["game_id: " ++ toString i.toInt]
      | none => []) ++
    lineIf (!p.partials.isEmpty) "prompt_partials:" ++
    lineIf (!p.roles.isEmpty) "agent_roles:" ++
    lineIf ((p.roles.map fun r => r.count.toNat).sum != 0) "agents:" ++
    lineIf (!p.state.isEmpty) "state:" ++ ["manager:", "runner:"]

/-- A line that fits level one begins no section. -/
theorem beginsSection_eq_false {line : Line} (h : line.Fits 1) :
    beginsSection line.render.toList = false := by
  rcases h.below.render_eq with heq | ⟨cs, heq⟩
  · rw [heq]
    rfl
  · rw [heq]
    rfl

theorem filter_of_fits {lines : List Line} (h : ∀ l ∈ lines, l.Fits 1) :
    (lines.map fun l => l.render.toList).filter beginsSection = [] := by
  rw [List.filter_eq_nil_iff]
  intro run hrun
  obtain ⟨l, hl, rfl⟩ := List.mem_map.mp hrun
  rw [beginsSection_eq_false (h l hl)]
  exact Bool.false_ne_true

theorem toList_render_heading {key : String} (hkey : keyText key = key) :
    (heading 0 key).render.toList = (key ++ ":").toList := by
  rw [Line.toList_render, heading, hkey]
  rfl

theorem toList_render_bareField (key : String) (hkey : keyText key = key) (value : String) :
    (bareField 0 key value).render.toList = (key ++ ": " ++ value).toList := by
  rw [Line.toList_render, bareField, hkey]
  rfl

/-- A section shows its heading only, and that if it has lines. -/
theorem filter_headed (key : String) {lines : List Line} (hkey : keyText key = key)
    (hbegins : beginsSection (key ++ ":").toList = true) (h : ∀ l ∈ lines, l.Fits 1) :
    ((headed 0 key lines).map fun l => l.render.toList).filter beginsSection
      = (lineIf (!lines.isEmpty) (key ++ ":")).map String.toList := by
  rw [headed]
  cases hlines : lines.isEmpty with
  | true => rfl
  | false =>
      rw [if_neg Bool.false_ne_true, List.map_cons, toList_render_heading hkey,
        List.filter_cons_of_pos hbegins, filter_of_fits h]
      rfl

theorem fits_headed {n level : Nat} {key : String} {lines : List Line} (hn : n ≤ level)
    (h : ∀ l ∈ lines, l.Fits n) : ∀ l ∈ headed level key lines, l.Fits n := by
  intro l hl
  rw [headed] at hl
  split at hl
  · exact absurd hl List.not_mem_nil
  · rcases List.mem_cons.mp hl with rfl | hl
    · exact (fits_heading level key).mono hn
    · exact h l hl

theorem newline_not_mem_intText (i : Int) : '\n' ∉ (toString i).toList := fun h =>
  ne_newline_of_isClean (isClean_of_isNumberMark (isNumberMark_of_mem_intText h)) rfl

theorem newline_not_mem_natText (n : Nat) : '\n' ∉ (toString n).toList :=
  newline_not_mem_intText n

/-- The texts of words stay on their line. -/
theorem newline_not_mem_wordTexts (ns : List UInt32) : ∀ t ∈ wordTexts ns, '\n' ∉ t.toList := by
  intro t ht
  obtain ⟨n, _, rfl⟩ := List.mem_map.mp ht
  exact newline_not_mem_natText n.toNat

theorem fits_of_mem_append {n : Nat} {before after : List Line} (hb : ∀ l ∈ before, l.Fits n)
    (ha : ∀ l ∈ after, l.Fits n) : ∀ l ∈ before ++ after, l.Fits n := by
  intro l hl
  rcases List.mem_append.mp hl with hl | hl
  · exact hb l hl
  · exact ha l hl

theorem fits_of_mem_flatMap {α : Type} {n : Nat} {block : α → List Line} (xs : List α)
    (h : ∀ x ∈ xs, ∀ l ∈ block x, l.Fits n) : ∀ l ∈ xs.flatMap block, l.Fits n := by
  intro l hl
  obtain ⟨x, hx, hl⟩ := List.mem_flatMap.mp hl
  exact h x hx l hl

theorem fits_partialLines (p : PromptPartial) : ∀ l ∈ partialLines p, l.Fits 1 := by
  refine fits_markFirst (fun l hl => ?_)
  rcases List.mem_cons.mp hl with rfl | hl
  · exact fits_quotedField 2 "name" p.name
  · exact fits_proseField 2 "content" p.content l hl

theorem fits_roleLines (r : Role) : ∀ l ∈ roleLines r, l.Fits 1 := by
  -- One fact for each group of lines, in the order in which a role has them.
  have hfields : ∀ l ∈ [bareField 2 "role_id" (toString r.id.toNat), quotedField 2 "name" r.name,
      quotedField 2 "llm_type" r.model], l.Fits 2 := by
    intro l hl
    rcases List.mem_cons.mp hl with rfl | hl
    · exact fits_bareField 2 "role_id" (newline_not_mem_natText _)
    · rcases List.mem_cons.mp hl with rfl | hl
      · exact fits_quotedField 2 "name" r.name
      · rw [List.mem_singleton.mp hl]
        exact fits_quotedField 2 "llm_type" r.model
  have hparameters : ∀ l ∈ headed 2 "llm_params" (memberLines 3 r.parameters.entries), l.Fits 2 :=
    fits_headed (Nat.le_refl 2) fun l hl =>
      (fits_memberLines 3 r.parameters.entries l hl).mono (by omega)
  have hcount : ∀ l ∈ [bareField 2 "number_of_agents" (toString r.count.toNat)], l.Fits 2 := by
    intro l hl
    rw [List.mem_singleton.mp hl]
    exact fits_bareField 2 "number_of_agents" (newline_not_mem_natText _)
  have hprompts : ∀ l ∈ headed 2 "prompts"
      ((inSlotOrder r.prompts.entries).flatMap fun m => proseField 3 m.1 m.2),
      l.Fits 2 :=
    fits_headed (Nat.le_refl 2) (fits_of_mem_flatMap _ fun x _ l hl =>
      (fits_proseField 3 x.1 x.2 l hl).mono (by omega))
  refine fits_markFirst (fits_of_mem_append (fits_of_mem_append (fits_of_mem_append
    (fits_of_mem_append hfields hparameters) hcount) hprompts) ?_)
  intro l hl
  split at hl
  · rw [List.mem_singleton.mp hl]
    exact fits_inlineField 2 "task_phases" (newline_not_mem_wordTexts _)
  · exact absurd hl List.not_mem_nil

theorem fits_agentLines (id : UInt32) : ∀ l ∈ agentLines id, l.Fits 1 := by
  refine fits_markFirst (fun l hl => ?_)
  rw [List.mem_singleton.mp hl]
  exact fits_bareField 2 "id" (newline_not_mem_natText _)

theorem fits_fieldLines (f : StateField) : ∀ l ∈ fieldLines f, l.Fits 1 := by
  have hnames : ∀ l ∈ [quotedField 3 "name" f.name, quotedField 3 "type" f.type], l.Fits 3 := by
    intro l hl
    rcases List.mem_cons.mp hl with rfl | hl
    · exact fits_quotedField 3 "name" f.name
    · rw [List.mem_singleton.mp hl]
      exact fits_quotedField 3 "type" f.type
  have hblock : ∀ l ∈ fieldLines f, l.Fits 2 := by
    refine fits_markFirst (fits_of_mem_append hnames (fun l hl => ?_))
    split at hl
    · exact fits_valueField 3 "default" _ l hl
    · exact absurd hl List.not_mem_nil
  exact fun l hl => (hblock l hl).mono (by omega)

theorem fits_stateLines (s : StateSchema) : ∀ l ∈ stateLines s, l.Fits 1 :=
  fits_of_mem_flatMap _ fun _ _ =>
    fits_headed (Nat.le_refl 1) (fits_of_mem_flatMap _ fun f _ => fits_fieldLines f)

theorem fits_settingLine (key : String) (v : Setting) : (settingLine key v).Fits 1 := by
  cases v with
  | text s => exact fits_quotedField 1 key s
  | int i => exact fits_bareField 1 key (newline_not_mem_intText i)
  | float x =>
      refine fits_bareField 1 key (fun h => ?_)
      exact ne_newline_of_isClean (isClean_of_isNumberMark
        (FloatLayout.isNumberMark_of_mem_text h)) rfl
  | words ns => exact fits_inlineField 1 key (newline_not_mem_wordTexts ns)

/-- Settings show their heading only. -/
theorem filter_settingLines (key : String) (hkey : keyText key = key)
    (hbegins : beginsSection (key ++ ":").toList = true) (settings : List (String × Setting)) :
    ((settingLines key settings).map fun l => l.render.toList).filter beginsSection
      = [(key ++ ":").toList] := by
  have hfits : ∀ l ∈ settings.map (fun m => settingLine m.1 m.2), l.Fits 1 := by
    intro l hl
    obtain ⟨m, _, rfl⟩ := List.mem_map.mp hl
    exact fits_settingLine m.1 m.2
  rw [settingLines, List.map_cons, toList_render_heading hkey, List.filter_cons_of_pos hbegins,
    filter_of_fits hfits]

theorem idsFrom_isEmpty (next count : UInt32) :
    (idsFrom next count).isEmpty = (count.toNat == 0) := by
  rw [idsFrom, List.isEmpty_map]
  cases h : count.toNat with
  | zero => rfl
  | succ n => rfl

/-- There are no agents exactly if the counts sum to zero. -/
theorem poolFrom_isEmpty {next : UInt32} {counts ids : List UInt32}
    (h : poolFrom next counts = .ok ids) :
    ids.isEmpty = ((counts.map UInt32.toNat).sum == 0) := by
  induction counts generalizing next ids with
  | nil =>
      rw [poolFrom, Except.ok.injEq] at h
      rw [← h]
      rfl
  | cons count counts ih =>
      rw [poolFrom] at h
      cases hafter : addWords next count with
      | error f => simp [hafter, bind, Except.bind] at h
      | ok after =>
          cases hothers : poolFrom after counts with
          | error f => simp [hafter, hothers, bind, Except.bind] at h
          | ok others =>
              simp only [hafter, hothers, bind, Except.bind, pure, Except.pure,
                Except.ok.injEq] at h
              have happend : (idsFrom next count ++ others).isEmpty
                  = ((idsFrom next count).isEmpty && others.isEmpty) := by
                cases idsFrom next count <;> rfl
              rw [← h, happend, idsFrom_isEmpty, ih hothers, List.map_cons,
                List.sum_cons]
              -- Either the first count adds no agent, or there is one already.
              cases hcount : count.toNat with
              | zero => rw [Nat.zero_add]; rfl
              | succ n =>
                  have hne : (n + 1 + (counts.map UInt32.toNat).sum == 0) = false :=
                    beq_eq_false_iff_ne.mpr (by omega)
                  rw [hne]
                  rfl

theorem isEmpty_flatMap_markFirst {α : Type} {block : α → List Line}
    (hblock : ∀ x, (block x).isEmpty = false) (xs : List α) :
    (xs.flatMap block).isEmpty = xs.isEmpty := by
  cases xs with
  | nil => rfl
  | cons x xs =>
      have hx := hblock x
      rw [List.flatMap_cons]
      cases hb : block x with
      | nil => rw [hb] at hx; exact absurd hx (by decide)
      | cons l ls => rfl

theorem isEmpty_stateLines (s : StateSchema) : (stateLines s).isEmpty = s.isEmpty := by
  have hspace : ∀ n : StateNamespace,
      (headed 1 n.sectionKey ((s.fields n).flatMap fieldLines)).isEmpty = (s.fields n).isEmpty := by
    intro n
    rw [headed, isEmpty_flatMap_markFirst (fun _ => rfl)]
    cases hn : (s.fields n).isEmpty <;> rfl
  have happend : ∀ a b : List Line, (a ++ b).isEmpty = (a.isEmpty && b.isEmpty) := by
    intro a b
    cases a <;> rfl
  simp only [stateLines, StateSchema.isEmpty, StateNamespace.all, List.flatMap_cons,
    List.flatMap_nil, List.append_nil, happend, hspace, List.all_cons, List.all_nil, Bool.and_true]

namespace Project

/-- The lines of a configuration, given its agents. -/
def laidOut (p : Project) (server : Server) (agents : List UInt32) : List Line :=
  identityLines p ++
    headed 0 "prompt_partials" (p.partials.flatMap partialLines) ++
    headed 0 "agent_roles" (p.roles.flatMap roleLines) ++
    headed 0 "agents" (agents.flatMap agentLines) ++
    headed 0 "state" (stateLines p.state) ++
    settingLines "manager" (managerSettings p.manager) ++
    settingLines "runner" (runnerSettings p.manager p.gameId server)

/-- A project compiles exactly if there is a pool for its agents. -/
theorem compile_eq_ok_iff {p : Project} {server : Server} {text : String} :
    p.compile server = .ok text ↔ ∃ agents, pool (p.roles.map Role.count) = .ok agents ∧
      text = renderLines (p.laidOut server agents) := by
  rw [compile, configuration]
  cases hpool : pool (p.roles.map Role.count) with
  | error f =>
      simp only [bind, Except.bind, Functor.map, Except.map, reduceCtorEq, false_and, exists_false]
  | ok agents =>
      simp only [bind, Except.bind, pure, Except.pure, Functor.map, Except.map, Except.ok.injEq,
        exists_eq_left', laidOut, eq_comm]

theorem fits_identityLines (p : Project) : ∀ l ∈ identityLines p, l.Fits 0 := by
  intro l hl
  rw [identityLines] at hl
  rcases List.mem_cons.mp hl with rfl | hl
  · exact fits_quotedField 0 "name" p.name
  · rcases List.mem_append.mp hl with hl | hl
    · split at hl
      · split at hl
        · exact absurd hl List.not_mem_nil
        · rw [List.mem_singleton.mp hl]
          exact fits_quotedField 0 "description" _
      · exact absurd hl List.not_mem_nil
    · split at hl
      · rw [List.mem_singleton.mp hl]
        exact fits_bareField 0 "game_id" (newline_not_mem_intText _)
      · exact absurd hl List.not_mem_nil

theorem fits_settingLines (key : String) (settings : List (String × Setting)) :
    ∀ l ∈ settingLines key settings, l.Fits 0 := by
  intro l hl
  rw [settingLines] at hl
  rcases List.mem_cons.mp hl with rfl | hl
  · exact fits_heading 0 key
  · obtain ⟨⟨name, v⟩, _, rfl⟩ := List.mem_map.mp hl
    exact (fits_settingLine name v).mono (Nat.zero_le 1)

/-- No line of a configuration holds a line end. -/
theorem fits_laidOut (p : Project) (server : Server) (agents : List UInt32) :
    ∀ l ∈ p.laidOut server agents, l.Fits 0 := by
  have hheaded : ∀ (key : String) {lines : List Line}, (∀ l ∈ lines, l.Fits 1) →
      ∀ l ∈ headed 0 key lines, l.Fits 0 := fun key lines h =>
    fits_headed (Nat.le_refl 0) fun l hl => (h l hl).mono (Nat.zero_le 1)
  have hpartials := hheaded "prompt_partials"
    (fits_of_mem_flatMap p.partials fun x _ => fits_partialLines x)
  have hroles := hheaded "agent_roles"
    (fits_of_mem_flatMap p.roles fun x _ => fits_roleLines x)
  have hagents := hheaded "agents"
    (fits_of_mem_flatMap agents fun x _ => fits_agentLines x)
  have hstate := hheaded "state" (fits_stateLines p.state)
  exact fits_of_mem_append (fits_of_mem_append (fits_of_mem_append (fits_of_mem_append
    (fits_of_mem_append (fits_of_mem_append (fits_identityLines p) hpartials) hroles) hagents)
    hstate) (fits_settingLines _ _)) (fits_settingLines _ _)

/-- The fields that tell what a project is called begin sections. -/
theorem filter_identityLines (p : Project) :
    ((identityLines p).map fun l => l.render.toList).filter beginsSection
      = (["name: " ++ quote p.name] ++
        (match p.description with
          | some d => lineIf (!d.isEmpty) ("description: " ++ quote d)
          | none => []) ++
        (match p.gameId with
          | some i => ["game_id: " ++ toString i.toInt]
          | none => [])).map String.toList := by
  have hname : ∀ s : String, beginsSection ("name" ++ ": " ++ s).toList = true := by
    intro s
    rw [String.toList_append]
    rfl
  have hdescription : ∀ s : String, beginsSection ("description" ++ ": " ++ s).toList = true := by
    intro s
    rw [String.toList_append]
    rfl
  have hgame : ∀ s : String, beginsSection ("game_id" ++ ": " ++ s).toList = true := by
    intro s
    rw [String.toList_append]
    rfl
  have hnameKey : keyText "name" = "name" := by decide
  have hdescriptionKey : keyText "description" = "description" := by decide
  have hgameKey : keyText "game_id" = "game_id" := by decide
  have hfirst := toList_render_bareField _ hnameKey (quote p.name)
  have hsecond := fun d => toList_render_bareField _ hdescriptionKey (quote d)
  have hthird := fun i : Int64 => toList_render_bareField _ hgameKey (toString i.toInt)
  -- None of the three lines is indented, so that the filter lets through all that are there.
  rw [identityLines, quotedField, List.map_cons, hfirst, List.filter_cons_of_pos (hname _)]
  rw [List.append_assoc, List.singleton_append, List.map_cons]
  refine congrArg (_ :: ·) ?_
  rw [List.map_append, List.filter_append, List.map_append]
  congr 1
  · cases p.description with
    | none => rfl
    | some d =>
        cases hd : d.isEmpty with
        | true => simp only [hd, if_true, lineIf, Bool.not_true, Bool.false_eq_true, if_false,
            List.map_nil, List.filter_nil]
        | false =>
            simp only [hd, Bool.false_eq_true, if_false, lineIf, Bool.not_false, if_true,
              quotedField, List.map_cons, List.map_nil, hsecond,
              List.filter_cons_of_pos (hdescription _), List.filter_nil]
            rfl
  · cases p.gameId with
    | none => rfl
    | some i =>
        simp only [List.map_cons, List.map_nil, hthird, List.filter_cons_of_pos (hgame _),
          List.filter_nil]
        rfl

end Project

/-- The lines that are not indented are those that begin the sections, whatever
    stands in the texts of the project and the server. The text begins with the
    name, and its last line ends. -/
theorem sections_of_compile (p : Project) (server : Server) (text : String)
    (h : p.compile server = .ok text) :
    (Text.split '\n' text.toList).filter beginsSection = p.sectionLines.map String.toList ∧
      (Text.split '\n' text.toList).head? = some ("name: " ++ quote p.name).toList ∧
      text.toList.getLast? = some '\n' := by
  obtain ⟨agents, hpool, rfl⟩ := Project.compile_eq_ok_iff.mp h
  have hagents : agents.isEmpty = ((p.roles.map fun r => r.count.toNat).sum == 0) := by
    have hempty := poolFrom_isEmpty hpool
    rwa [List.map_map] at hempty
  have hpartials := filter_headed "prompt_partials" (by decide) (by decide)
    (fits_of_mem_flatMap p.partials fun x _ => fits_partialLines x)
  have hroles := filter_headed "agent_roles" (by decide) (by decide)
    (fits_of_mem_flatMap p.roles fun x _ => fits_roleLines x)
  have hpool := filter_headed "agents" (by decide) (by decide)
    (fits_of_mem_flatMap agents fun x _ => fits_agentLines x)
  have hstate := filter_headed "state" (by decide) (by decide) (fits_stateLines p.state)
  have hmanager := filter_settingLines "manager" (by decide) (by decide)
    (managerSettings p.manager)
  have hrunner := filter_settingLines "runner" (by decide) (by decide)
    (runnerSettings p.manager p.gameId server)
  -- A section is left out if it has no lines, and it has none if its list is empty.
  rw [isEmpty_flatMap_markFirst (fun _ => rfl)] at hpartials hroles hpool
  rw [hagents] at hpool
  rw [isEmpty_stateLines] at hstate
  refine ⟨?_, ?_, ?_⟩
  · rw [split_renderLines (p.fits_laidOut server agents), List.filter_append]
    simp only [Project.laidOut, List.map_append, List.filter_append, hpartials, hroles, hpool,
      hstate, hmanager, hrunner, p.filter_identityLines, Project.sectionLines]
    simp only [List.append_assoc, List.map_cons, List.map_nil]
    rfl
  · rw [split_renderLines (p.fits_laidOut server agents)]
    have hname := toList_render_bareField "name" (by decide) (quote p.name)
    exact congrArg some hname
  · rw [toList_renderLines]
    exact Text.getLast?_ended (by simp [Project.laidOut, identityLines])

/-- A project whose texts look like sections. -/
def Project.intruding : Project where
  name := "a\nmanager:"
  partials := [{ id := "1", name := "x", content := "y\nrunner:\n" }]
  roles := [{
    id := 1
    name := "r"
    count := 2
    parameters := .ofList [("state:\n", .array [.object [("k", .text "\nstate:")]])] }]

/-- Texts that look like sections stay within theirs. -/
theorem sections_of_compile_intruding :
    ∃ text, Project.intruding.compile {} = .ok text ∧
      (Text.split '\n' text.toList).filter beginsSection
        = ["name: \"a\\nmanager:\"", "prompt_partials:", "agent_roles:", "agents:", "manager:",
            "runner:"].map String.toList :=
  ⟨_, rfl, (sections_of_compile Project.intruding {} _ rfl).1.trans (by decide)⟩

end SimStudio
