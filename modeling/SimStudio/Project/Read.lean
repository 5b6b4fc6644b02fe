import SimStudio.Json.Record
import SimStudio.Project
import SimStudio.Yaml.Record

/-!
# Reading Projects

Projects out of documents. The names of the fields are the same in all formats,
and stand here in the order in which a format without names expects them. What
may be left out has a value that it then gets.

A reading is written once for all formats. Only the manager is first gathered
as content, because its kind decides which members it has.

## Main definitions

* `Manager.ofContent?`: The manager of a kind with the given content.
* `Project.read`: Read a project at a place of a document.
* `Project.ofJson?`, `Project.ofYaml?`: Read a project out of a text.
-/

namespace SimStudio

variable {S : Type} [Format S]

namespace Format

/-- The word of 32 bits at a place. -/
def word (place : S) : Reading UInt32 := UInt32.ofNat <$> Format.natural (2 ^ 32) place

end Format

/-- Read a partial. -/
def PromptPartial.read (place : S) : Reading PromptPartial := do
  let fields ← Fields.read ["id", "name", "content"] place
  let id ← fields.required "id" Format.text
  let name ← fields.required "name" Format.text
  let content ← fields.orElse "content" Format.text ""
  pure { id, name, content }

/-- Read a role. -/
def Role.read (place : S) : Reading Role := do
  let fields ← Fields.read
    ["roleId", "name", "llmType", "llmParams", "numberOfAgents", "prompts", "taskPhases"] place
  let id ← fields.required "roleId" Format.word
  let name ← fields.required "name" Format.text
  let model ← fields.orElse "llmType" Format.text ""
  let parameters ← fields.orElse "llmParams" (Format.map Format.value) {}
  let count ← fields.orElse "numberOfAgents" Format.word 0
  let prompts ← fields.orElse "prompts" (Format.map Format.text) {}
  let phases ← fields.optional "taskPhases" (Format.list Format.word)
  pure { id, name, model, parameters, count, prompts, phases }

/-- Read a field of the shared state. -/
def StateField.read (place : S) : Reading StateField := do
  let fields ← Fields.read ["name", "type", "default"] place
  let name ← fields.required "name" Format.text
  let type ← fields.required "type" Format.text
  let default ← fields.optional "default" Format.value
  pure { name, type, default }

/-- Read the schema of the shared state. -/
def StateSchema.read (place : S) : Reading StateSchema := do
  let fields ← Fields.read ["metaInformation", "publicInformation", "privateInformation"] place
  let metaFields ← fields.orElse "metaInformation" (Format.list StateField.read) []
  let publicFields ← fields.orElse "publicInformation" (Format.list StateField.read) []
  let privateFields ← fields.orElse "privateInformation" (Format.list StateField.read) []
  pure { metaFields, publicFields, privateFields }

/-- Read how a project is to be logged. -/
def Logging.read (place : S) : Reading Logging := do
  let fields ← Fields.read ["level", "directory"] place
  let level ← fields.orElse "level" Format.text "INFO"
  let directory ← fields.optional "directory" Format.text
  pure { level, directory }

namespace Manager

/-- The fields of a hybrid manager. -/
def hybridFields : List String := ["continuousPhases", "maxActionDelay", "minActionDelay"]

/-- The field that a key of a map stands for, by its name or its number; some
    keys stand for none. -/
def hybridField? : Content → Option (Option String)
  | .text name => some (if hybridFields.contains name then some name else none)
  | .int i => if 0 ≤ i then some hybridFields[i.toNat]? else none
  | _ => none

/-- The fields of a hybrid manager among the entries of a map. -/
def hybridEntries? (entries : List (Content × Content)) : Option (List (String × Content)) := do
  let named ← entries.mapM fun (key, v) => do
    let name ← hybridField? key
    pure (name.map fun name => (name, v))
  let known := named.filterMap id
  if (known.map Prod.fst).Nodup then some known else none

/-- A hybrid manager with the given fields. -/
def ofHybridFields? (fields : List (String × Content)) : Option Manager := do
  let phases ← match fields.lookup "continuousPhases" with
    | some v => do (← v.items?).mapM fun v => (v.natural? (2 ^ 32)).map UInt32.ofNat
    | none => some []
  let delay (name : String) : Option Binary64 :=
    match fields.lookup name with
    | some v => v.float?
    | none => some .zero
  let maxDelay ← delay "maxActionDelay"
  let minDelay ← delay "minActionDelay"
  pure (.hybrid phases maxDelay minDelay)

/-- The manager of a kind with the given content: a map of its fields, or a list
    of them in their order. A turn-based manager has no fields, and ignores
    those of a map. -/
def ofContent? (kind : String) (content : Content) : Option Manager :=
  match kind, content with
  | "TurnBasedPhaseManager", .map _ => some .turnBased
  | "TurnBasedPhaseManager", .list [] => some .turnBased
  | "HybridPhaseManager", .map entries => (hybridEntries? entries).bind ofHybridFields?
  | "HybridPhaseManager", .list items =>
      if items.length ≤ hybridFields.length then ofHybridFields? (hybridFields.zip items) else none
  | _, _ => none

/-- Read a manager. -/
def read (place : S) : Reading Manager := do
  let (kind, content) ← Format.tagged "type" place
  .ofOption (ofContent? kind content)

end Manager

/-- Read when a project was created. -/
def Timestamp.read (place : S) : Reading Timestamp := do
  let text ← Format.text place
  .ofOption (Timestamp.read? text)

namespace Project

/-- Read a project. -/
def read (place : S) : Reading Project := do
  let fields ← Fields.read
    ["id", "createdAt", "name", "description", "gameId", "promptPartials", "agentRoles", "state",
      "manager", "logging"] place
  let id ← fields.orElse "id" Format.text ""
  let createdAt ← fields.optional "createdAt" Timestamp.read
  let name ← fields.required "name" Format.text
  let description ← fields.optional "description" Format.text
  let gameId ← fields.optional "gameId" fun place => Int64.ofInt <$> Format.integer place
  let partials ← fields.orElse "promptPartials" (Format.list PromptPartial.read) []
  let roles ← fields.orElse "agentRoles" (Format.list Role.read) []
  let state ← fields.orElse "state" StateSchema.read {}
  let manager ← fields.orElse "manager" Manager.read .turnBased
  let logging ← fields.orElse "logging" Logging.read {}
  pure { id, createdAt, name, description, gameId, partials, roles, state, manager, logging }

/-- The project that a JSON text describes, whether it keeps the rules or not. -/
def ofJson? (text : String) : Option Project := Json.readText? read text

/-- The project that a YAML text describes, whether it keeps the rules or not. -/
def ofYaml? (text : String) : Option Project := Yaml.readText? read text

end Project

end SimStudio
