import SimStudio.Project.Insert
import SimStudio.Project.Validity
import SimStudio.Proofs.Text.Splicing

/-!
# What an Insertion Changes

An insertion into a prompt is refused, and then the project is as it was before,
or it succeeds, and then nothing has changed but the slot. There is no third
way: the control in which the prompt is edited only ever gets a selection within
its text, so the splice is never called against its contract.

That the rules of a project are kept has the same reason. They ask for the ids
and names of roles, and for no prompt.

## Main definitions

* `selectionIn`: The selection that an edit of a text uses.
* `Project.Reworded`: One project is another one but for a slot of a role.

## Theorems

* `Project.promptControl_eq`: A prompt is edited where the selection is within it.
* `updateFirstRole_append`: Only the first role with an id is changed.
* `Project.Reworded.violation?_eq`: The rules ask for no prompt.
* `Project.run_insertIntoPrompt_within`, `Project.run_insertIntoPrompt_outside`: An
  insertion that is made, and one that is refused.
* `Project.insertIntoPrompt_exact`: What an insertion does to a project.
-/

namespace SimStudio

/-- The selection that an edit of a text uses: the one that is given, or the end
    of the text. -/
def selectionIn (text : String) (selection : Option (Nat × Nat)) : Nat × Nat :=
  selection.getD (text.length, text.length)

namespace Project

/-- `q` is `p` but for a slot of the first role with an id, which holds a text. -/
def Reworded (p q : Project) (id : UInt32) (slot text : String) : Prop :=
  ∃ before role after prompts, p.roles = before ++ role :: after ∧ role.id = id ∧
    (∀ r ∈ before, r.id ≠ id) ∧ q = { p with roles := before ++ { role with prompts } :: after } ∧
    prompts.get? slot = some text ∧
    ∀ other, other ≠ slot → prompts.get? other = role.prompts.get? other

/-- A prompt is edited in a control with a selection within it, or not at all. -/
theorem promptControl_eq (text : String) (selection : Option (Nat × Nat)) :
    promptControl text selection =
      if (selectionIn text selection).1 ≤ (selectionIn text selection).2 ∧
          (selectionIn text selection).2 ≤ text.length then
        .ok ⟨text, selectionIn text selection, false⟩
      else .error (.selectionOutside (selectionIn text selection).1 (selectionIn text selection).2
        text.length) := by
  cases selection with
  | none => simp [promptControl, selectionIn, TextControl.new]
  | some s =>
      obtain ⟨first, last⟩ := s
      by_cases hwithin : first ≤ last ∧ last ≤ text.length
      · have hnot : ¬(last < first ∨ text.length < last) := by omega
        simp [promptControl, selectionIn, hwithin, hnot, TextControl.new, TextControl.select]
      · have houtside : last < first ∨ text.length < last := by omega
        simp [promptControl, selectionIn, hwithin, houtside]

end Project

/-- Only the first role with an id is changed. -/
theorem updateFirstRole_append {id : UInt32} (change : Role → Role) {before : List Role}
    {role : Role} (after : List Role) (hrole : role.id = id) (hbefore : ∀ r ∈ before, r.id ≠ id) :
    updateFirstRole id change (before ++ role :: after) = before ++ change role :: after := by
  induction before with
  | nil => rw [List.nil_append, updateFirstRole, if_pos hrole, List.nil_append]
  | cons r before ih =>
      rw [List.cons_append, updateFirstRole, if_neg (hbefore r List.mem_cons_self),
        ih fun r' hr' => hbefore r' (List.mem_cons_of_mem _ hr'), List.cons_append]

/-- The rules ask for the ids and names of roles only. -/
theorem roleViolation?_congr {before before' roles roles' : List Role}
    (hbefore : before.map Role.id = before'.map Role.id)
    (hroles : roles.map (fun r => (r.id, r.name)) = roles'.map fun r => (r.id, r.name)) :
    roleViolation? before roles = roleViolation? before' roles' := by
  -- The roles that came before are carried along, and only their ids are ever asked for.
  induction roles generalizing before before' roles' with
  | nil =>
      rw [List.map_nil, eq_comm, List.map_eq_nil_iff] at hroles
      rw [hroles]
      rfl
  | cons r roles ih =>
      cases roles' with
      | nil => cases hroles
      | cons r' roles' =>
          obtain ⟨hr, hrest⟩ := List.cons.inj hroles
          obtain ⟨hid, hname⟩ := Prod.mk.inj hr
          have htaken : before.any (·.id == r.id) = before'.any (·.id == r'.id) := by
            have hany := congrArg (List.any · (· == r.id)) hbefore
            rw [List.any_map, List.any_map] at hany
            rw [← hid]
            exact hany
          have hafter : roleViolation? (before ++ [r]) roles =
              roleViolation? (before' ++ [r']) roles' :=
            ih (by rw [List.map_append, List.map_append, hbefore, List.map_singleton,
              List.map_singleton, hid]) hrest
          rw [roleViolation?, roleViolation?, htaken, hid, hname, hafter]

namespace Project

/-- The rules ask for no prompt. -/
theorem Reworded.violation?_eq {p q : Project} {id : UInt32} {slot text : String}
    (h : p.Reworded q id slot text) : q.violation? = p.violation? := by
  obtain ⟨before, role, after, prompts, hroles, -, -, rfl, -, -⟩ := h
  have hrules : roleViolation? [] (before ++ { role with prompts } :: after) =
      roleViolation? [] p.roles := by
    rw [hroles]
    exact roleViolation?_congr rfl (by simp)
  simp only [violation?, hrules]

/-- A slot that gets a text is the only thing that changes. -/
theorem reworded_of_role? {p : Project} {id : UInt32} {role : Role} (h : p.role? id = some role)
    (slot text : String) : ∃ q,
      p.updateRole? id (fun r => { r with prompts := r.prompts.insert slot text }) = some q ∧
        p.Reworded q id slot text := by
  have hfound := List.find?_eq_some_iff_append.mp h
  obtain ⟨hid, before, after, hroles, hbefore⟩ := hfound
  have hid : role.id = id := beq_iff_eq.mp hid
  have hbefore : ∀ r ∈ before, r.id ≠ id := fun r hr => by simpa using hbefore r hr
  refine ⟨_, by rw [updateRole?, h, Option.map_some], before, role, after,
    role.prompts.insert slot text, hroles, hid, hbefore, ?_, ?_, fun other hother => ?_⟩
  · rw [hroles, updateFirstRole_append _ after hid hbefore]
  · rw [StringMap.get?_insert, if_pos rfl]
  · rw [StringMap.get?_insert, if_neg hother]

/-- An edit that begins with a look at the project goes on with that project. -/
theorem run_get_bind {α : Type} (next : Project → Edit α) (p : Project) :
    (get >>= next : Edit α).run.run p = (next p).run.run p := rfl

section Edits

variable {p : Project} {id : UInt32} {slot : String} (literal : String)
  {selection : Option (Nat × Nat)}

theorem run_insertIntoPrompt_of_none (h : p.role? id = none) :
    (insertIntoPrompt id slot literal selection).run.run p =
      (.error (.failed (.request (.noRole id))), p) := by
  rw [insertIntoPrompt, run_get_bind, h]
  rfl

variable {role : Role} {first last : Nat} (hrole : p.role? id = some role)
  (hselection : selectionIn (role.prompt slot) selection = (first, last))
include hrole hselection

theorem run_insertIntoPrompt_outside (h : ¬(first ≤ last ∧ last ≤ (role.prompt slot).length)) :
    (insertIntoPrompt id slot literal selection).run.run p =
      (.error (.failed (.request
        (.selectionOutside first last (role.prompt slot).length))), p) := by
  have hcontrol := promptControl_eq (role.prompt slot) selection
  rw [hselection, if_neg h] at hcontrol
  rw [insertIntoPrompt, run_get_bind, hrole]
  simp only [hcontrol]
  rfl

theorem run_insertIntoPrompt_within (hfirst : first ≤ last)
    (hlast : last ≤ (role.prompt slot).length) :
    ∃ q, (insertIntoPrompt id slot literal selection).run.run p =
        (.ok (first + literal.length), q) ∧
      p.Reworded q id slot (spliced (role.prompt slot) first last literal) := by
  have hcontrol := promptControl_eq (role.prompt slot) selection
  rw [hselection, if_pos ⟨hfirst, hlast⟩] at hcontrol
  have hinserted := TextControl.insert_eq_ok (c := ⟨role.prompt slot, (first, last), false⟩)
    literal {} hfirst hlast
  obtain ⟨q, hq, hreworded⟩ := reworded_of_role? hrole slot
    (spliced (role.prompt slot) first last literal)
  have hcommitted := congrArg (Option.getD · p) hq
  refine ⟨q, ?_, hreworded⟩
  rw [insertIntoPrompt, run_get_bind, hrole]
  simp only [hcontrol, hinserted]
  -- What is left runs by itself: the commit, then the caret that has waited for it.
  exact congrArg (Prod.mk _) hcommitted

end Edits

/-- Without the role nothing is edited. A selection that is not within the prompt
    is refused, and the project stays as it is. Otherwise the literal comes into
    the place of the selection, the caret behind it, and nothing else changes. -/
theorem insertIntoPrompt_exact (p : Project) (id : UInt32) (slot literal : String)
    (selection : Option (Nat × Nat)) :
    let edited := (insertIntoPrompt id slot literal selection).run.run p
    match p.role? id with
    | none => edited = (.error (.failed (.request (.noRole id))), p)
    | some role =>
        let text := role.prompt slot
        let (first, last) := selectionIn text selection
        if first ≤ last ∧ last ≤ text.length then
          ∃ q, edited = (.ok (first + literal.length), q) ∧
            p.Reworded q id slot (spliced text first last literal) ∧ q.violation? = p.violation?
        else
          edited = (.error (.failed (.request (.selectionOutside first last text.length))), p) := by
  intro edited
  cases hrole : p.role? id with
  | none => exact run_insertIntoPrompt_of_none literal hrole
  | some role =>
      cases hselection : selectionIn (role.prompt slot) selection with
      | mk first last =>
          by_cases hwithin : first ≤ last ∧ last ≤ (role.prompt slot).length
          · obtain ⟨q, hrun, hreworded⟩ :=
              run_insertIntoPrompt_within literal hrole hselection hwithin.1 hwithin.2
            simp only [hselection, if_pos hwithin]
            exact ⟨q, hrun, hreworded, hreworded.violation?_eq⟩
          · simp only [hselection, if_neg hwithin]
            exact run_insertIntoPrompt_outside literal hrole hselection hwithin

end Project

end SimStudio
