import SimStudio.Configuration.Field
import SimStudio.Configuration.Pool
import SimStudio.Configuration.Runner
import SimStudio.Configuration.Slot
import SimStudio.Reference

/-!
# Configurations

A project compiled into the text that a runner reads. Its sections come in a
fixed order: what the project is called, partials, roles, agents, state,
manager, runner. Whatever is absent or empty is left out with its key; neither
`null` nor an empty list stands in for it.

## Main definitions

* `identityLines`, `partialLines`, `roleLines`, `agentLines`, `stateLines`,
  `settingLines`: The sections.
* `Project.configuration`: The lines of a configuration.
* `Project.compile`: Its text.
-/

namespace SimStudio

/-- A section that is left out when it has no lines. -/
def headed (level : Nat) (key : String) (lines : List Line) : List Line :=
  if lines.isEmpty then [] else heading level key :: lines

/-- What a project is called. -/
def identityLines (p : Project) : List Line :=
  quotedField 0 "name" p.name ::
    ((match p.description with
      | some d => if d.isEmpty then [] else [quotedField 0 "description" d]
      | none => []) ++
    match p.gameId with
    | some i => [bareField 0 "game_id" (toString i.toInt)]
    | none => [])

/-- A partial. -/
def partialLines (p : PromptPartial) : List Line :=
  markFirst (quotedField 2 "name" p.name :: proseField 2 "content" p.content)

/-- The texts of words. -/
def wordTexts (ns : List UInt32) : List String := ns.map fun n => toString n.toNat

/-- A role. -/
def roleLines (r : Role) : List Line :=
  markFirst (
    [bareField 2 "role_id" (toString r.id.toNat), quotedField 2 "name" r.name,
      quotedField 2 "llm_type" r.model] ++
    headed 2 "llm_params" (memberLines 3 r.parameters.entries) ++
    [bareField 2 "number_of_agents" (toString r.count.toNat)] ++
    headed 2 "prompts"
      ((inSlotOrder r.prompts.entries).flatMap fun (slot, text) => proseField 3 slot text) ++
    match r.phases with
    | some (n :: ns) => [inlineField 2 "task_phases" (wordTexts (n :: ns))]
    | _ => [])

/-- An agent. -/
def agentLines (id : UInt32) : List Line := markFirst [bareField 2 "id" (toString id.toNat)]

/-- A field of the shared state. -/
def fieldLines (f : StateField) : List Line :=
  markFirst ([quotedField 3 "name" f.name, quotedField 3 "type" f.type] ++
    match f.default with
    | some v => valueField 3 "default" v
    | none => [])

/-- The shared state, by namespace. -/
def stateLines (s : StateSchema) : List Line :=
  StateNamespace.all.flatMap fun n => headed 1 n.sectionKey ((s.fields n).flatMap fieldLines)

/-- A setting of a manager or runner. -/
def settingLine (key : String) : Setting → Line
  | .text s => quotedField 1 key s
  | .int i => bareField 1 key (toString i)
  | .float x => bareField 1 key (Manager.delayLayout.text x)
  | .words ns => inlineField 1 key (wordTexts ns)

/-- Settings below their heading. -/
def settingLines (key : String) (settings : List (String × Setting)) : List Line :=
  heading 0 key :: settings.map fun (key, v) => settingLine key v

namespace Project

/-- The lines of the configuration of a project for a server. -/
def configuration (p : Project) (server : Server) : Except Fault (List Line) := do
  let agents ← pool (p.roles.map Role.count)
  pure (identityLines p ++
    headed 0 "prompt_partials" (p.partials.flatMap partialLines) ++
    headed 0 "agent_roles" (p.roles.flatMap roleLines) ++
    headed 0 "agents" (agents.flatMap agentLines) ++
    headed 0 "state" (stateLines p.state) ++
    settingLines "manager" (managerSettings p.manager) ++
    settingLines "runner" (runnerSettings p.manager p.gameId server))

/-- The text of the configuration of a project for a server. -/
def compile (p : Project) (server : Server) : Except Fault String :=
  renderLines <$> p.configuration server

end Project

end SimStudio
