import SimStudio.Proofs.Configuration.Numbering
import SimStudio.Proofs.Project.Commuting
import SimStudio.Proofs.Project.Rules

/-!
# The Ids of Roles

A new role is numbered after the greatest id there is, so its id is fresh, whatever the
others are and in whatever order they stand. Roles that are removed leave gaps, which
are never filled, unless they were the last. Since the other rules do not speak of roles
at all, a project keeps all of them while roles come and go and prompts are edited.

There is one way only in which no role can be added. The greatest id may be the last
word, and then the number after it is none (`addRole_cases`). Nothing keeps a document
from giving that id to a role, and the rules accept it (`addRole_lastId`).

## Main definitions

* `Project.withRole`: A project with one more role.
* `RoleChange`: A role is added or removed, or a prompt is edited.
* `Project.after`, `Project.afterAll`: A project after a change, and after many.
* `Project.unordered`: A project whose roles are not in the order of their ids.
* `Project.lastId`: A project whose role has the last id of all.

## Theorems

* `Project.addRole_cases`: When a role is added, and with which id.
* `Project.role?_withRole`: The new role is found by its id.
* `Project.KeepsRules.withRole`: It breaks no rule.
* `Project.KeepsRules.after`, `Project.KeepsRules.afterAll`: No change breaks a rule, nor
  do many.
* `Project.addRole_afterAll`: Roles get fresh ids in any run of changes.
-/

namespace SimStudio

/-- The greater of two words is one of them, and what bounds both bounds it. -/
instance lawfulOrderMax_word : Std.LawfulOrderMax UInt32 := by
  have hmax : ∀ a b : UInt32, a ≤ b ∧ max a b = b ∨ b ≤ a ∧ max a b = a := by
    intro a b
    unfold max instMaxUInt32 maxOfLe
    dsimp only
    by_cases hle : a ≤ b
    · exact .inl ⟨hle, if_pos hle⟩
    · exact .inr ⟨(UInt32.le_total a b).resolve_left hle, if_neg hle⟩
  refine .of_max_le_iff (fun a b c => ?_) fun a b => ?_
  · rcases hmax a b with ⟨hle, heq⟩ | ⟨hle, heq⟩
    · rw [heq]
      exact ⟨fun h => ⟨UInt32.le_trans hle h, h⟩, And.right⟩
    · rw [heq]
      exact ⟨fun h => ⟨h, UInt32.le_trans hle h⟩, And.left⟩
  · rcases hmax a b with ⟨-, heq⟩ | ⟨-, heq⟩
    · exact .inr heq
    · exact .inl heq

namespace Project

/-- The project with one more role. -/
def withRole (p : Project) (r : Role) : Project := { p with roles := p.roles ++ [r] }

/-- A role is added with an id above all others, and with number one if there are no others.
    It is not if there is a role with the last id of all. -/
theorem addRole_cases (p : Project) (name model : String) :
    (p.addRole name model = .error .additionOverflow ∧
      ∃ r ∈ p.roles, r.id.toNat = 2 ^ 32 - 1) ∨
    (∃ id, p.addRole name model = .ok (p.withRole (.new id name model), id) ∧
      (∀ r ∈ p.roles, r.id < id) ∧ (p.roles = [] → id = 1)) := by
  unfold addRole nextRoleId
  cases hmax : (p.roles.map Role.id).max? with
  | none =>
      have hnil : p.roles = [] := List.map_eq_nil_iff.mp (List.max?_eq_none_iff.mp hmax)
      refine .inr ⟨1, rfl, fun r hr => ?_, fun _ => rfl⟩
      rw [hnil] at hr
      cases hr
  | some greatest =>
      rcases List.max?_eq_some_iff.mp hmax with ⟨hmem, hbound⟩
      have hsize : UInt32.size = 2 ^ 32 := rfl
      have hone : (1 : UInt32).toNat = 1 := rfl
      by_cases hfits : greatest.toNat + (1 : UInt32).toNat < UInt32.size
      · -- The number after the greatest id is a word, so it is above that id and all others.
        rcases addWords_eq hfits with ⟨hnext, hnat⟩
        dsimp only
        rw [hnext]
        refine .inr ⟨greatest + 1, rfl, fun r hr => ?_, fun hnil => ?_⟩
        · have hle := UInt32.le_iff_toNat_le.mp (hbound r.id (List.mem_map_of_mem hr))
          rw [UInt32.lt_iff_toNat_lt]
          omega
        · rw [hnil] at hmem
          cases hmem
      · have hlast := greatest.toNat_lt
        rcases List.mem_map.mp hmem with ⟨r, hr, rfl⟩
        dsimp only
        rw [addWords, if_neg hfits]
        exact .inl ⟨rfl, r, hr, by omega⟩

section NewRole

variable {p : Project} {role : Role} (hfresh : ∀ r ∈ p.roles, r.id < role.id)
include hfresh

/-- A role with an id of its own is found by it. -/
theorem role?_withRole : (p.withRole role).role? role.id = some role := by
  have hnone : p.roles.find? (·.id == role.id) = none := by
    refine List.find?_eq_none.mpr fun r hr heq => ?_
    have hlt := hfresh r hr
    rw [beq_iff_eq.mp heq] at hlt
    exact UInt32.lt_irrefl _ hlt
  unfold role? withRole
  rw [List.find?_append, hnone, List.find?_singleton, beq_self_eq_true]
  rfl

/-- A role with an id of its own breaks no rule. -/
theorem KeepsRules.withRole (h : p.KeepsRules) : (p.withRole role).KeepsRules := by
  refine ⟨h.named, h.partialIds, h.partialNames, ?_, h.fieldsNamed, h.fieldNames, h.delays⟩
  unfold Project.withRole
  rw [List.map_append, List.map_singleton, List.nodup_append]
  refine ⟨h.roleIds, List.nodup_singleton _, fun id hid other hother => ?_⟩
  rcases List.mem_map.mp hid with ⟨r, hr, rfl⟩
  rw [List.mem_singleton.mp hother]
  exact UInt32.ne_of_lt (hfresh r hr)

end NewRole

end Project

/-- A change of the roles of a project. -/
inductive RoleChange
  /-- A new role is added. -/
  | add (name model : String)
  /-- The role at an index is removed, if there is one. -/
  | remove (index : Nat)
  /-- A literal is inserted into a prompt. -/
  | insert (e : PromptEdit)

namespace Project

/-- The project after a change. A change that fails leaves it as it is. -/
def after (p : Project) : RoleChange → Project
  | .add name model =>
      match p.addRole name model with
      | .ok (q, _) => q
      | .error _ => p
  | .remove index => { p with roles := p.roles.eraseIdx index }
  | .insert e => (e.run p).2

/-- The project after changes one after the other. -/
def afterAll (p : Project) (changes : List RoleChange) : Project := changes.foldl after p

theorem KeepsRules.reword {p : Project} (h : p.KeepsRules) (id : UInt32) (slot text : String) :
    (p.reword id slot text).KeepsRules := by
  refine ⟨h.named, h.partialIds, h.partialNames, ?_, h.fieldsNamed, h.fieldNames, h.delays⟩
  unfold Project.reword
  rw [map_updateFirstRole (Role.id_reword slot text)]
  exact h.roleIds

/-- No change breaks a rule. -/
theorem KeepsRules.after {p : Project} (h : p.KeepsRules) (c : RoleChange) :
    (p.after c).KeepsRules := by
  cases c with
  | add name model =>
      unfold Project.after
      dsimp only
      rcases p.addRole_cases name model with ⟨hadded, -⟩ | ⟨id, hadded, hfresh, -⟩
      · rw [hadded]
        exact h
      · rw [hadded]
        exact h.withRole hfresh
  | remove index =>
      refine ⟨h.named, h.partialIds, h.partialNames, ?_, h.fieldsNamed, h.fieldNames, h.delays⟩
      exact h.roleIds.sublist ((List.eraseIdx_sublist _ _).map Role.id)
  | insert e =>
      unfold Project.after
      dsimp only
      rw [e.run_eq]
      cases p.prompt? e.role e.slot with
      | none => exact h
      | some text =>
          dsimp only
          split
          · exact h.reword ..
          · exact h

/-- Nor do many, one after the other. -/
theorem KeepsRules.afterAll {p : Project} (h : p.KeepsRules) (changes : List RoleChange) :
    (p.afterAll changes).KeepsRules := by
  induction changes generalizing p with
  | nil => exact h
  | cons c changes ih => exact ih (h.after c)

/-- Whatever has been done to the roles of a project that keeps the rules, it still keeps
    them, and no two roles have the same id. A role that is added then comes behind the
    others with an id above all of theirs, by which it is found, and breaks no rule. Only
    where a role has the last id of all there is no such id, and the sum overflows. -/
theorem addRole_afterAll {p : Project} (hp : p.validate = .ok p) (changes : List RoleChange)
    (name model : String) :
    let q := p.afterAll changes
    q.validate = .ok q ∧ (q.roles.map Role.id).Nodup ∧
    if ∃ r ∈ q.roles, r.id.toNat = 2 ^ 32 - 1 then
      q.addRole name model = .error .additionOverflow
    else
      ∃ id, q.addRole name model = .ok (q.withRole (.new id name model), id) ∧
        (∀ r ∈ q.roles, r.id < id) ∧ (q.roles = [] → id = 1) ∧
        (q.withRole (.new id name model)).role? id = some (.new id name model) ∧
        (q.withRole (.new id name model)).validate = .ok (q.withRole (.new id name model)) := by
  intro q
  have hrules : q.KeepsRules := (validate_eq_ok_iff.mp hp).afterAll changes
  refine ⟨validate_eq_ok_iff.mpr hrules, hrules.roleIds, ?_⟩
  rcases q.addRole_cases name model with ⟨hadded, hlast⟩ | ⟨id, hadded, hfresh, hfirst⟩
  · rw [if_pos hlast]
    exact hadded
  · rw [if_neg]
    · exact ⟨id, hadded, hfresh, hfirst, role?_withRole hfresh,
        validate_eq_ok_iff.mpr (hrules.withRole hfresh)⟩
    · -- No word is above the last one.
      rintro ⟨r, hr, hid⟩
      have hlt := UInt32.lt_iff_toNat_lt.mp (hfresh r hr)
      have hlast := id.toNat_lt
      omega

/-- A project whose roles are not in the order of their ids. -/
def unordered : Project where
  name := "a"
  roles := [{ id := 7, name := "r" }, { id := 3, name := "s" }]

/-- The greatest id is the first here, and the role that has it is removed, though another
    one has been added after it. -/
theorem addRole_unordered :
    let q := unordered.afterAll [.add "t" "", .remove 0, .insert ⟨3, "user", "x", none⟩]
    unordered.validate = .ok unordered ∧ q.validate = .ok q ∧ q.roles.map Role.id = [3, 8] ∧
      q.addRole "u" "" = .ok (q.withRole (.new 9 "u" ""), 9) ∧
      (q.withRole (.new 9 "u" "")).role? 9 = some (.new 9 "u" "") := by
  intro q
  have hids : q.roles.map Role.id = [3, 8] := rfl
  have hadded : q.addRole "u" "" = .ok (q.withRole (.new 9 "u" ""), 9) := rfl
  rcases addRole_afterAll (rfl : unordered.validate = .ok unordered)
    [.add "t" "", .remove 0, .insert ⟨3, "user", "x", none⟩] "u" "" with ⟨hvalid, -, hnew⟩
  refine ⟨rfl, hvalid, hids, hadded, ?_⟩
  rw [if_neg (by decide)] at hnew
  rcases hnew with ⟨id, hid, -, -, hfound, -⟩
  rw [hadded] at hid
  cases hid
  exact hfound

/-- A project whose role has the last id of all. -/
def lastId : Project where
  name := "a"
  roles := [{ id := 4294967295, name := "r" }]

/-- The rules are kept by a project that no role can be added to. -/
theorem addRole_lastId :
    lastId.validate = .ok lastId ∧ lastId.addRole "b" "" = .error .additionOverflow :=
  ⟨rfl, rfl⟩

end Project

end SimStudio
