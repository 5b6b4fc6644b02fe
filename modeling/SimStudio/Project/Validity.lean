import SimStudio.Failure
import SimStudio.Project.Read
import SimStudio.Text.Blank

/-!
# The Rules for Projects

A project has a name that is not blank. Ids and names of its partials, ids of
its roles, and names of the fields of one namespace are not given twice, and no
field name is empty. The delays of a hybrid manager are finite and not below
zero. Nothing is asked of the two delays together, nor of the references in
prompts.

What is reported is the first rule that is broken, in a fixed order: the name,
partials, roles, fields, delays. In a list it is the first element that agrees
with one before it.

## Main definitions

* `Project.violation?`: The first rule that a project breaks.
* `Project.validate`: A project that keeps the rules, or what it breaks.
* `Project.ofText`: Read a project that keeps the rules.
-/

namespace SimStudio

/-- The first violation among partials that come behind others. -/
def partialViolation? (before : List PromptPartial) : List PromptPartial → Option Violation
  | [] => none
  | p :: rest =>
      if before.any (·.id == p.id) then some (.duplicatePartialId p.id)
      else if before.any (·.name == p.name) then some (.duplicatePartialName p.name)
      else partialViolation? (before ++ [p]) rest

/-- The first violation among roles that come behind others. -/
def roleViolation? (before : List Role) : List Role → Option Violation
  | [] => none
  | r :: rest =>
      if before.any (·.id == r.id) then some (.duplicateRoleId r.id r.name)
      else roleViolation? (before ++ [r]) rest

/-- The first violation among fields of a namespace that come behind others. -/
def fieldViolation? (space : StateNamespace) (before : List StateField) :
    List StateField → Option Violation
  | [] => none
  | f :: rest =>
      if f.name.isEmpty then some (.emptyFieldName space)
      else if before.any (·.name == f.name) then some (.duplicateField space f.name)
      else fieldViolation? space (before ++ [f]) rest

/-- Whether a delay breaks its rule. -/
def delayViolation? (kind : DelayKind) (delay : Binary64) : Option Violation :=
  if delay.isFinite && !delay.isNegative then none else some (.badDelay kind delay)

/-- The first rule that a manager breaks. -/
def Manager.violation? : Manager → Option Violation
  | turnBased => none
  | hybrid _ maxDelay minDelay => (delayViolation? .max maxDelay).or (delayViolation? .min minDelay)

namespace Project

/-- The first rule that a project breaks. -/
def violation? (p : Project) : Option Violation :=
  if Text.AllBlank p.name then some .emptyProjectName
  else
    (partialViolation? [] p.partials).or <|
    (roleViolation? [] p.roles).or <|
    (StateNamespace.all.findSome? fun n => fieldViolation? n [] (p.state.fields n)).or
    p.manager.violation?

/-- The project, if it keeps the rules. -/
def validate (p : Project) : Except Failure Project :=
  match p.violation? with
  | some v => .error (.violation v)
  | none => .ok p

/-- The project that a text describes, if it keeps the rules. -/
def ofText (format : DocumentFormat) (text : String) : Except Failure Project :=
  let read := match format with
    | .json => ofJson? text
    | .yaml => ofYaml? text
  match read with
  | some p => p.validate
  | none => .error (.request (.malformedProject format))

end Project

end SimStudio
