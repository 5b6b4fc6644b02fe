import SimStudio.Project

/-!
# References in Prompts

What a prompt writes where the runner is to put in something else: the value of
a state field, as in `{{ public_information.price }}`, or the text of a partial,
as in `{% include 'Rules' %}`.

References are only written here. Whether a prompt refers to something that
exists is left to the runner.

## Main definitions

* `StateNamespace.token`: The reference to a field.
* `includeReference`: The reference to a partial.
* `StateSchema.references`: All fields with their references.
-/

namespace SimStudio

namespace StateNamespace

/-- The name by which a user asks for a namespace. -/
def name : StateNamespace → String
  | metaInfo => "meta"
  | publicInfo => "public"
  | privateInfo => "private"

/-- The namespace that a user asks for. -/
def ofName? : String → Option StateNamespace
  | "meta" => some metaInfo
  | "public" => some publicInfo
  | "private" => some privateInfo
  | _ => none

/-- What stands before the point in a reference to a field. -/
def qualifier : StateNamespace → String
  | metaInfo => "meta"
  | publicInfo => "public_information"
  | privateInfo => "private_information"

/-- The heading of the namespace in a compiled configuration. -/
def sectionKey : StateNamespace → String
  | metaInfo => "meta_information"
  | publicInfo => "public_information"
  | privateInfo => "private_information"

/-- The reference to a field. -/
def token (n : StateNamespace) (field : String) : String :=
  "\x7b\x7b " ++ n.qualifier ++ "." ++ field ++ " \x7d\x7d"

end StateNamespace

/-- The reference to the partial with a name. -/
def includeReference (name : String) : String := "\x7b% include '" ++ name ++ "' %\x7d"

/-- A state field with the reference to it. -/
structure FieldReference where
  space : StateNamespace
  field : String
  token : String
  deriving DecidableEq, Inhabited

/-- Every field with its reference, by namespace and in the order in which the
    fields are declared. -/
def StateSchema.references (schema : StateSchema) : List FieldReference :=
  StateNamespace.all.flatMap fun n =>
    (schema.fields n).map fun field => ⟨n, field.name, n.token field.name⟩

end SimStudio
