import SimStudio.Proofs.Project.Inserting

/-!
# Insertions in Either Order

Two insertions that do not touch one another may be made in either order. Where they
go to different slots there is nothing to it: each sees its own text and writes its
own slot. Where they go to the same slot, the selection of the one has to be in front
of that of the other, and the one behind moves by as much as the text in front of it
has grown (`spliced_comm`).

What makes both cases short is that an insertion is one function of what it sees: it
reads the text of a slot, decides by its length, and writes the slot back
(`PromptEdit.run_eq`). So it is enough to know what a slot holds after another
one has been written, and that writes to slots commute.

## Main definitions

* `Role.reword`, `Project.reword`: Write a slot.
* `Project.prompt?`: The text that an insertion sees.
* `PromptEdit`: An insertion into a prompt.
* `PromptEdit.selected?`: The selection that it uses.

## Theorems

* `spliced_comm`: Splices at two places may come in either order.
* `Project.reword_comm`, `Project.reword_reword`: So may writes to two slots.
* `Project.prompt?_reword`: What slots hold after one has been written.
* `Project.Reworded.eq_reword`: A project but for a slot is known from the slot.
* `PromptEdit.run_eq`, `PromptEdit.run_eq_ok_iff`: What insertions do, and which are made.
* `PromptEdit.run_comm`: Insertions that do not touch one another commute.
-/

namespace SimStudio

/-- Splices at two places may come in either order. The later one of the places moves
    with what is put in before it. -/
theorem spliced_comm {buffer : String} {first₁ last₁ first₂ last₂ : Nat}
    (literal₁ literal₂ : String) (h₁ : first₁ ≤ last₁) (hapart : last₁ ≤ first₂)
    (h₂ : first₂ ≤ last₂) (hlast : last₂ ≤ buffer.length) :
    spliced (spliced buffer first₁ last₁ literal₁) (first₂ + literal₁.length - (last₁ - first₁))
        (last₂ + literal₁.length - (last₁ - first₁)) literal₂ =
      spliced (spliced buffer first₂ last₂ literal₂) first₁ last₁ literal₁ := by
  -- The text is in five parts: both selections, and what is before, between and behind.
  rcases exists_parts h₁ (Nat.le_trans hapart (Nat.le_trans h₂ hlast)) with
    ⟨before, taken₁, rest, rfl, hbefore, htaken₁⟩
  rw [String.length_ofList, List.length_append, List.length_append] at hlast
  have hlast' : last₂ - last₁ ≤ (String.ofList rest).length := by
    rw [String.length_ofList]
    omega
  rcases exists_parts (by omega : first₂ - last₁ ≤ last₂ - last₁) hlast' with
    ⟨between, taken₂, after, hrest, hbetween, htaken₂⟩
  obtain rfl := String.ofList_injective hrest
  have hliteral₁ : literal₁.toList.length = literal₁.length := String.length_toList
  -- Each selection comes with all that is in front of it and all that is behind it.
  have hfront : (before ++ literal₁.toList ++ between).length =
      first₂ + literal₁.length - (last₁ - first₁) := by
    rw [List.length_append, List.length_append]
    omega
  have hfront' : (before ++ taken₁ ++ between).length = first₂ := by
    rw [List.length_append, List.length_append]
    omega
  have hparts (start : List Char) : start ++ (between ++ taken₂ ++ after) =
      start ++ between ++ taken₂ ++ after := by
    simp only [List.append_assoc]
  have hparts' : before ++ taken₁ ++ between ++ literal₂.toList ++ after =
      before ++ taken₁ ++ (between ++ literal₂.toList ++ after) := by
    simp only [List.append_assoc]
  rw [spliced_parts hbefore htaken₁, hparts (before ++ literal₁.toList),
    spliced_parts hfront (by omega), hparts (before ++ taken₁), spliced_parts hfront' (by omega),
    hparts', spliced_parts hbefore htaken₁]
  simp only [List.append_assoc]

namespace Role

/-- The role with a text in a slot. -/
def reword (slot text : String) (r : Role) : Role :=
  { r with prompts := r.prompts.insert slot text }

theorem id_reword (slot text : String) (r : Role) : (r.reword slot text).id = r.id := rfl

theorem prompt_reword (r : Role) (slot text other : String) :
    (r.reword slot text).prompt other = if other = slot then text else r.prompt other := by
  unfold prompt reword
  rw [StringMap.get?_insert]
  split
  · rfl
  · rfl

theorem reword_reword (r : Role) (slot text text' : String) :
    (r.reword slot text).reword slot text' = r.reword slot text' := by
  unfold reword
  rw [StringMap.insert_insert]

theorem reword_comm (r : Role) {slot slot' : String} (text text' : String) (h : slot ≠ slot') :
    (r.reword slot text).reword slot' text' = (r.reword slot' text').reword slot text := by
  unfold reword
  rw [StringMap.insert_comm _ _ _ h]

end Role

-- ## Changes of the First Role with an Id

section Changes

variable {id id' : UInt32} {change change' : Role → Role} {roles : List Role}

/-- What a change leaves alone is the same for all roles. -/
theorem map_updateFirstRole {α : Type} {f : Role → α} (hf : ∀ r, f (change r) = f r) :
    (updateFirstRole id change roles).map f = roles.map f := by
  induction roles with
  | nil => rfl
  | cons r roles ih =>
      unfold updateFirstRole
      split
      · rw [List.map_cons, hf, List.map_cons]
      · rw [List.map_cons, ih, List.map_cons]

/-- A role that keeps its id is found again, changed. -/
theorem find?_updateFirstRole (hid : ∀ r, (change r).id = r.id) :
    (updateFirstRole id change roles).find? (·.id == id') =
      if id' = id then (roles.find? (·.id == id')).map change
      else roles.find? (·.id == id') := by
  induction roles with
  | nil => simp [updateFirstRole]
  | cons r roles ih =>
      unfold updateFirstRole
      by_cases hr : r.id = id
      · by_cases hid' : id' = id
        · simp [hr, hid, hid']
        · simp [hr, hid, hid', Ne.symm hid']
      · by_cases hr' : r.id = id'
        · have hne : id' ≠ id := hr' ▸ hr
          simp [hr', hne]
        · simp [hr, hr', ih]

/-- The same role is changed again. -/
theorem updateFirstRole_updateFirstRole (hid : ∀ r, (change r).id = r.id) :
    updateFirstRole id change' (updateFirstRole id change roles) =
      updateFirstRole id (change' ∘ change) roles := by
  induction roles with
  | nil => rfl
  | cons r roles ih =>
      by_cases hr : r.id = id
      · simp [updateFirstRole, hr, hid]
      · simp [updateFirstRole, hr, ih]

/-- Changes of different roles may be made in either order. -/
theorem updateFirstRole_comm (hne : id ≠ id') (hid : ∀ r, (change r).id = r.id)
    (hid' : ∀ r, (change' r).id = r.id) :
    updateFirstRole id' change' (updateFirstRole id change roles) =
      updateFirstRole id change (updateFirstRole id' change' roles) := by
  induction roles with
  | nil => rfl
  | cons r roles ih =>
      by_cases hr : r.id = id
      · have hr' : r.id ≠ id' := hr ▸ hne
        simp [updateFirstRole, hr, hid, hne]
      · by_cases hr' : r.id = id'
        · simp [updateFirstRole, hr', hid', Ne.symm hne]
        · simp [updateFirstRole, hr, hr', ih]

end Changes

namespace Project

/-- The project with a text in a slot of the first role with an id. -/
def reword (p : Project) (id : UInt32) (slot text : String) : Project :=
  { p with roles := updateFirstRole id (Role.reword slot text) p.roles }

/-- The text that stands in a slot of the first role with an id; a missing slot is
    empty. -/
def prompt? (p : Project) (id : UInt32) (slot : String) : Option String :=
  (p.role? id).map (·.prompt slot)

theorem prompt?_reword (p : Project) (id id' : UInt32) (slot slot' text : String) :
    (p.reword id slot text).prompt? id' slot' =
      if (id', slot') = (id, slot) then (p.prompt? id slot).map fun _ => text
      else p.prompt? id' slot' := by
  have hfound : (p.reword id slot text).role? id' =
      if id' = id then (p.role? id').map (Role.reword slot text) else p.role? id' :=
    find?_updateFirstRole (Role.id_reword slot text)
  unfold prompt?
  rw [hfound]
  by_cases hid : id' = id
  · subst hid
    by_cases hslot : slot' = slot
    · subst hslot
      simp [Role.prompt_reword, Function.comp_def]
    · simp [Role.prompt_reword, Function.comp_def, hslot]
  · simp [hid]

theorem reword_reword (p : Project) (id : UInt32) (slot text text' : String) :
    (p.reword id slot text).reword id slot text' = p.reword id slot text' := by
  have hsame : Role.reword slot text' ∘ Role.reword slot text = Role.reword slot text' :=
    funext fun r => r.reword_reword slot text text'
  unfold reword
  dsimp only
  rw [updateFirstRole_updateFirstRole (Role.id_reword slot text), hsame]

theorem reword_comm (p : Project) {id id' : UInt32} {slot slot' : String} (text text' : String)
    (h : (id, slot) ≠ (id', slot')) :
    (p.reword id slot text).reword id' slot' text' =
      (p.reword id' slot' text').reword id slot text := by
  unfold reword
  dsimp only
  by_cases hid : id = id'
  · -- One role is written twice, in two slots.
    subst hid
    have hslot : slot ≠ slot' := fun heq => h (by rw [heq])
    have hboth : Role.reword slot' text' ∘ Role.reword slot text =
        Role.reword slot text ∘ Role.reword slot' text' :=
      funext fun r => r.reword_comm text text' hslot
    rw [updateFirstRole_updateFirstRole (Role.id_reword slot text),
      updateFirstRole_updateFirstRole (Role.id_reword slot' text'), hboth]
  · rw [updateFirstRole_comm hid (Role.id_reword slot text) (Role.id_reword slot' text')]

/-- A project that is another one but for a slot is known from what the slot holds. -/
theorem Reworded.eq_reword {p q : Project} {id : UInt32} {slot text : String}
    (h : p.Reworded q id slot text) : q = p.reword id slot text := by
  rcases h with ⟨before, role, after, prompts, hroles, hid, hbefore, rfl, hslot, hothers⟩
  have hprompts : prompts = role.prompts.insert slot text := by
    refine StringMap.ext_get? fun other => ?_
    rw [StringMap.get?_insert]
    by_cases hother : other = slot
    · rw [if_pos hother, hother, hslot]
    · rw [if_neg hother, hothers other hother]
  unfold reword
  rw [hroles, updateFirstRole_append _ _ hid hbefore, hprompts]
  rfl

end Project

/-- An insertion into a prompt. -/
structure PromptEdit where
  role : UInt32
  slot : String
  literal : String
  /-- Without one, the end of the prompt is selected. -/
  selection : Option (Nat × Nat) := none

namespace PromptEdit

/-- Make an insertion. -/
def run (e : PromptEdit) (p : Project) : Except Stop Nat × Project :=
  (Project.insertIntoPrompt e.role e.slot e.literal e.selection).run.run p

/-- The insertion with another selection. -/
def selecting (e : PromptEdit) (first last : Nat) : PromptEdit :=
  { e with selection := some (first, last) }

/-- The selection that an insertion uses, if there is the role. -/
def selected? (e : PromptEdit) (p : Project) : Option (Nat × Nat) :=
  (p.prompt? e.role e.slot).map (selectionIn · e.selection)

theorem selected?_eq {e : PromptEdit} {p : Project} {text : String}
    (h : p.prompt? e.role e.slot = some text) :
    e.selected? p = some (selectionIn text e.selection) := by
  unfold selected?
  rw [h, Option.map_some]

/-- An insertion sees the text of a slot. It is made where its selection is within the text,
    and then the slot is all that it writes. -/
theorem run_eq (e : PromptEdit) (p : Project) :
    e.run p =
      match p.prompt? e.role e.slot with
      | none => (.error (.failed (.request (.noRole e.role))), p)
      | some text =>
          let (first, last) := selectionIn text e.selection
          if first ≤ last ∧ last ≤ text.length then
            (.ok (first + e.literal.length),
              p.reword e.role e.slot (spliced text first last e.literal))
          else (.error (.failed (.request (.selectionOutside first last text.length))), p) := by
  unfold run Project.prompt?
  cases hrole : p.role? e.role with
  | none => exact Project.run_insertIntoPrompt_of_none e.literal hrole
  | some role =>
      rcases hselection : selectionIn (role.prompt e.slot) e.selection with ⟨first, last⟩
      rw [Option.map_some]
      dsimp only
      rw [hselection]
      by_cases hwithin : first ≤ last ∧ last ≤ (role.prompt e.slot).length
      · rcases Project.run_insertIntoPrompt_within e.literal hrole hselection hwithin.1 hwithin.2
          with ⟨q, hrun, hreworded⟩
        rw [hrun, hreworded.eq_reword, if_pos hwithin]
      · rw [Project.run_insertIntoPrompt_outside e.literal hrole hselection hwithin,
          if_neg hwithin]

/-- The insertions that are made, and what they do. -/
theorem run_eq_ok_iff {e : PromptEdit} {p q : Project} {caret : Nat} :
    e.run p = (.ok caret, q) ↔ ∃ text first last, p.prompt? e.role e.slot = some text ∧
      selectionIn text e.selection = (first, last) ∧ first ≤ last ∧ last ≤ text.length ∧
      caret = first + e.literal.length ∧
      q = p.reword e.role e.slot (spliced text first last e.literal) := by
  rw [run_eq]
  constructor
  · intro h
    cases htext : p.prompt? e.role e.slot with
    | none =>
        rw [htext] at h
        cases (Prod.mk.inj h).1
    | some text =>
        rw [htext] at h
        dsimp only at h
        split at h
        · rename_i hwithin
          rcases Prod.mk.inj h with ⟨hcaret, hq⟩
          exact ⟨text, _, _, rfl, rfl, hwithin.1, hwithin.2, (Except.ok.inj hcaret).symm, hq.symm⟩
        · cases (Prod.mk.inj h).1
  · rintro ⟨text, first, last, htext, hselection, hfirst, hlast, rfl, rfl⟩
    rw [htext]
    dsimp only
    rw [hselection, if_pos ⟨hfirst, hlast⟩]

/-- What an insertion has done, told from the selection that it uses. -/
theorem exists_text_of_run {e : PromptEdit} {p q : Project} {caret first last : Nat}
    (h : e.run p = (.ok caret, q)) (hselected : e.selected? p = some (first, last)) :
    ∃ text, p.prompt? e.role e.slot = some text ∧ first ≤ last ∧ last ≤ text.length ∧
      caret = first + e.literal.length ∧
      q = p.reword e.role e.slot (spliced text first last e.literal) := by
  rcases run_eq_ok_iff.mp h with
    ⟨text, first', last', htext, hselection, hfirst, hlast, hcaret, hq⟩
  rw [selected?_eq htext, hselection] at hselected
  obtain ⟨rfl, rfl⟩ := Prod.mk.inj (Option.some.inj hselected)
  exact ⟨text, htext, hfirst, hlast, hcaret, hq⟩

section Pairs

variable {p q₁ q₂ : Project} {e₁ e₂ : PromptEdit} {caret₁ caret₂ : Nat}
  (h₁ : e₁.run p = (.ok caret₁, q₁)) (h₂ : e₂.run p = (.ok caret₂, q₂))
include h₁ h₂

/-- Insertions into two slots may be made in either order. -/
theorem run_comm_of_ne (hne : (e₁.role, e₁.slot) ≠ (e₂.role, e₂.slot)) :
    ∃ q, e₂.run q₁ = (.ok caret₂, q) ∧ e₁.run q₂ = (.ok caret₁, q) := by
  rcases run_eq_ok_iff.mp h₁ with
    ⟨text₁, first₁, last₁, htext₁, hselection₁, hfirst₁, hlast₁, hcaret₁, rfl⟩
  rcases run_eq_ok_iff.mp h₂ with
    ⟨text₂, first₂, last₂, htext₂, hselection₂, hfirst₂, hlast₂, hcaret₂, rfl⟩
  -- Neither sees what the other one has written.
  have hseen₂ := p.prompt?_reword e₁.role e₂.role e₁.slot e₂.slot
    (spliced text₁ first₁ last₁ e₁.literal)
  have hseen₁ := p.prompt?_reword e₂.role e₁.role e₂.slot e₁.slot
    (spliced text₂ first₂ last₂ e₂.literal)
  rw [if_neg (Ne.symm hne), htext₂] at hseen₂
  rw [if_neg hne, htext₁] at hseen₁
  exact ⟨_, run_eq_ok_iff.mpr ⟨text₂, first₂, last₂, hseen₂, hselection₂, hfirst₂, hlast₂,
    hcaret₂, rfl⟩, run_eq_ok_iff.mpr ⟨text₁, first₁, last₁, hseen₁, hselection₁, hfirst₁, hlast₁,
    hcaret₁, p.reword_comm _ _ hne⟩⟩

/-- Insertions into one slot may be made in either order, if the one selection is in front
    of the other one, which moves by as much as the text in front of it grows. -/
theorem run_comm_of_eq (heq : (e₁.role, e₁.slot) = (e₂.role, e₂.slot))
    {first₁ last₁ first₂ last₂ : Nat} (hselected₁ : e₁.selected? p = some (first₁, last₁))
    (hselected₂ : e₂.selected? p = some (first₂, last₂)) (hapart : last₁ ≤ first₂) :
    ∃ q, (e₂.selecting (first₂ + e₁.literal.length - (last₁ - first₁))
          (last₂ + e₁.literal.length - (last₁ - first₁))).run q₁ =
        (.ok (caret₂ + e₁.literal.length - (last₁ - first₁)), q) ∧
      (e₁.selecting first₁ last₁).run q₂ = (.ok caret₁, q) := by
  rcases exists_text_of_run h₁ hselected₁ with ⟨text, htext, hfirst₁, hlast₁, rfl, rfl⟩
  rcases exists_text_of_run h₂ hselected₂ with ⟨text', htext', hfirst₂, hlast₂, rfl, rfl⟩
  rcases Prod.mk.inj heq with ⟨hrole, hslot⟩
  -- Both see the same text, and each sees what the other one has made of it.
  have hone : text' = text := by
    rw [← hrole, ← hslot, htext] at htext'
    exact (Option.some.inj htext').symm
  subst hone
  have hseen₂ := p.prompt?_reword e₁.role e₂.role e₁.slot e₂.slot
    (spliced text' first₁ last₁ e₁.literal)
  have hseen₁ := p.prompt?_reword e₂.role e₁.role e₂.slot e₁.slot
    (spliced text' first₂ last₂ e₂.literal)
  rw [if_pos heq.symm, htext, Option.map_some] at hseen₂
  rw [if_pos heq, htext', Option.map_some] at hseen₁
  have hlength₁ := length_spliced e₁.literal hfirst₁ hlast₁
  have hlength₂ := length_spliced e₂.literal hfirst₂ hlast₂
  have hsame : (p.reword e₁.role e₁.slot (spliced text' first₁ last₁ e₁.literal)).reword e₂.role
        e₂.slot (spliced (spliced text' first₁ last₁ e₁.literal)
          (first₂ + e₁.literal.length - (last₁ - first₁))
          (last₂ + e₁.literal.length - (last₁ - first₁)) e₂.literal) =
      (p.reword e₂.role e₂.slot (spliced text' first₂ last₂ e₂.literal)).reword e₁.role
        e₁.slot (spliced (spliced text' first₂ last₂ e₂.literal) first₁ last₁ e₁.literal) := by
    rw [← hrole, ← hslot, p.reword_reword, p.reword_reword,
      spliced_comm e₁.literal e₂.literal hfirst₁ hapart hfirst₂ hlast₂]
  refine ⟨_, run_eq_ok_iff.mpr ⟨_, _, _, hseen₂, rfl, by omega, by omega, ?_, rfl⟩,
    run_eq_ok_iff.mpr ⟨_, _, _, hseen₁, rfl, hfirst₁, by omega, rfl, hsame⟩⟩
  dsimp only [selecting]
  omega

/-- Two insertions into a project that are made, each for itself. Into two slots they may be
    made in either order, each as it is. Into one slot they may be, too, if the one selection
    is in front of the other one: the insertion behind moves by as much as the text in front
    of it grows, or shrinks. -/
theorem run_comm :
    ((e₁.role, e₁.slot) ≠ (e₂.role, e₂.slot) →
      ∃ q, e₂.run q₁ = (.ok caret₂, q) ∧ e₁.run q₂ = (.ok caret₁, q)) ∧
    ((e₁.role, e₁.slot) = (e₂.role, e₂.slot) → ∀ first₁ last₁ first₂ last₂,
      e₁.selected? p = some (first₁, last₁) → e₂.selected? p = some (first₂, last₂) →
      last₁ ≤ first₂ →
      let d : Int := e₁.literal.length - ((last₁ : Int) - first₁)
      ∃ (first last caret : Nat) (q : Project),
        first = first₂ + d ∧ last = last₂ + d ∧ caret = caret₂ + d ∧
        (e₂.selecting first last).run q₁ = (.ok caret, q) ∧
        (e₁.selecting first₁ last₁).run q₂ = (.ok caret₁, q)) := by
  refine ⟨run_comm_of_ne h₁ h₂, ?_⟩
  intro heq first₁ last₁ first₂ last₂ hselected₁ hselected₂ hapart
  rcases run_comm_of_eq h₁ h₂ heq hselected₁ hselected₂ hapart with ⟨q, hrun₂, hrun₁⟩
  rcases exists_text_of_run h₁ hselected₁ with ⟨-, -, hfirst₁, -, -, -⟩
  rcases exists_text_of_run h₂ hselected₂ with ⟨-, -, hfirst₂, -, hcaret₂, -⟩
  -- What is taken out in front is no more than what stood there, so no number is below zero.
  refine ⟨_, _, _, q, ?_, ?_, ?_, hrun₂, hrun₁⟩
  · omega
  · omega
  · omega

end Pairs

/-- A project with a role whose prompt has two words. -/
def twoWords : Project where
  name := "a"
  roles := [{ id := 1, name := "r", prompts := StringMap.ofList [("user", "one two")] }]

theorem run_comm_twoWords :
    let front : PromptEdit := ⟨1, "user", "x", some (0, 3)⟩
    let back : PromptEdit := ⟨1, "user", "yz", none⟩
    let other : PromptEdit := ⟨1, "system", "s", none⟩
    ∃ q₁ q₂ q₃, front.run twoWords = (.ok 1, q₁) ∧ back.run twoWords = (.ok 9, q₂) ∧
      other.run twoWords = (.ok 1, q₃) ∧
      (∃ q, (back.selecting 5 5).run q₁ = (.ok 7, q) ∧ (front.selecting 0 3).run q₂ = (.ok 1, q)) ∧
      ∃ q, other.run q₁ = (.ok 1, q) ∧ front.run q₃ = (.ok 1, q) := by
  intro front back other
  have hfront : front.run twoWords =
      (.ok 1, twoWords.reword 1 "user" (spliced "one two" 0 3 "x")) :=
    run_eq_ok_iff.mpr ⟨"one two", 0, 3, rfl, rfl, by decide, by decide, by decide, rfl⟩
  have hback : back.run twoWords =
      (.ok 9, twoWords.reword 1 "user" (spliced "one two" 7 7 "yz")) :=
    run_eq_ok_iff.mpr ⟨"one two", 7, 7, rfl, rfl, by decide, by decide, by decide, rfl⟩
  have hother : other.run twoWords =
      (.ok 1, twoWords.reword 1 "system" (spliced "" 0 0 "s")) :=
    run_eq_ok_iff.mpr ⟨"", 0, 0, rfl, rfl, by decide, by decide, by decide, rfl⟩
  refine ⟨_, _, _, hfront, hback, hother, ?_, (run_comm hfront hother).1 (by decide)⟩
  rcases (run_comm hfront hback).2 rfl 0 3 7 7 rfl (by decide) (by decide) with
    ⟨first, last, caret, q, hfirst, hlast, hcaret, hrun₂, hrun₁⟩
  have hx : front.literal.length = 1 := by decide
  obtain rfl : first = 5 := by omega
  obtain rfl : last = 5 := by omega
  obtain rfl : caret = 7 := by omega
  exact ⟨q, hrun₂, hrun₁⟩

end PromptEdit

end SimStudio
