import SimStudio.Configuration
import SimStudio.Project.Insert

/-!
# The Order of Prompt Slots

A role's prompts are written in an order that depends on the names of their slots
only: first those for all phases, then phase by phase, then all others by name.

The order is said here of names as they are, by what stands before and behind the
first phase mark. The sort that puts prompts into this order compares less than
that: two names of one slot are equal to it. It is stable, though, and the prompts
of a role come to it by ascending names. So what it leaves open is decided by
names, and the order is a strict one: there is only one way to list a set of
names.

## Main definitions

* `Text.splitOnce?`: A text around the first occurrence of a mark.
* `slotPlace`: Where a slot belongs.
* `SlotPrecedes`: The order of names.
* `Role.slots`: The slots of a role as they are written.
* `Role.promptLines`: The lines of its prompts, slot by slot.

## Theorems

* `slotPlace_eq`: The place of a slot is known from what its name stands for.
* `pairwise_mergeSort_of_pairwise`: What a stable sort leaves of an earlier order.
* `Slot.precedes_of_le`: The sort and the names together give the order of names.
* `eq_of_perm_of_pairwise`: There is one way only to list names in that order.
* `Role.slots_in_order`: The slots of a role are written in the order of their
  names.
-/

namespace SimStudio

/-- The text before and behind the first occurrence of a mark. -/
def Text.splitOnce? (mark : List Char) : List Char → Option (List Char × List Char)
  | [] => if mark.isEmpty then some ([], []) else none
  | c :: cs =>
      if mark.isPrefixOf (c :: cs) then some ([], (c :: cs).drop mark.length)
      else (splitOnce? mark cs).map fun (before, behind) => (c :: before, behind)

/-- The parts with the mark between them are the text. -/
theorem Text.eq_of_splitOnce? {mark cs before behind : List Char}
    (h : splitOnce? mark cs = some (before, behind)) : cs = before ++ mark ++ behind := by
  induction cs generalizing before with
  | nil =>
      rw [splitOnce?] at h
      split at h
      · rename_i hmark
        rw [List.isEmpty_iff] at hmark
        obtain ⟨rfl, rfl⟩ := Prod.mk.inj (Option.some.inj h)
        rw [hmark]
        rfl
      · cases h
  | cons c cs ih =>
      rw [splitOnce?] at h
      split at h
      · rename_i hmark
        obtain ⟨rfl, rfl⟩ := Prod.mk.inj (Option.some.inj h)
        exact (List.prefix_iff_eq_append.mp (List.isPrefixOf_iff_prefix.mp hmark)).symm
      · obtain ⟨⟨before', behind'⟩, hparts, heq⟩ := Option.map_eq_some_iff.mp h
        obtain ⟨rfl, rfl⟩ := Prod.mk.inj heq
        rw [ih hparts]
        rfl

/-- The kind of prompt with a name. -/
def PromptKind.ofName? (cs : List Char) : Option PromptKind :=
  if cs = system.name then some system else if cs = user.name then some user else none

/-- The phase and the kind that a name tells: a number of 32 bits behind the first
    phase mark, and the name of a kind before it. -/
def phaseOf? (name : String) : Option (Nat × PromptKind) := do
  let (before, behind) ← Text.splitOnce? "_phase_".toList name.toList
  let kind ← PromptKind.ofName? before
  let n ← Digits.natural? (2 ^ 32) behind
  pure (n, kind)

/-- Where a slot belongs: its group, and within the group its phase and its kind. -/
structure SlotPlace where
  group : Nat
  phase : Nat := 0
  kind : Nat := 0
  deriving DecidableEq

/-- The place of the slot with a name: for all phases, for one, or neither. -/
def slotPlace (name : String) : SlotPlace :=
  match PromptKind.ofName? name.toList with
  | some kind => { group := 0, kind := kind.rank }
  | none =>
      match phaseOf? name with
      | some (n, kind) => { group := 1, phase := n, kind := kind.rank }
      | none => { group := 2 }

/-- The order of names: by place, and within a place by name. -/
def SlotPrecedes (a b : String) : Prop :=
  let p := slotPlace a
  let q := slotPlace b
  p.group < q.group ∨ p.group = q.group ∧ (p.phase < q.phase ∨ p.phase = q.phase ∧
    (p.kind < q.kind ∨ p.kind = q.kind ∧ a < b))

theorem SlotPrecedes.asymm {a b : String} (h : SlotPrecedes a b) : ¬SlotPrecedes b a := by
  intro h'
  have hname : a < b → ¬b < a := String.lt_asymm
  unfold SlotPrecedes at h h'
  dsimp only at h h'
  grind

-- ## What Names Stand For

theorem after?_eq_some_iff {lead cs rest : List Char} :
    Slot.after? lead cs = some rest ↔ cs = lead ++ rest := by
  rw [Slot.after?]
  constructor
  · intro h
    split at h
    · rename_i hprefix
      rw [← Option.some.inj h]
      exact (List.prefix_iff_eq_append.mp (List.isPrefixOf_iff_prefix.mp hprefix)).symm
    · cases h
  · rintro rfl
    rw [if_pos (List.isPrefixOf_iff_prefix.mpr (List.prefix_append _ _)), List.drop_left]

/-- The name of a kind has no mark in it, so the mark behind it is the first. -/
theorem splitOnce?_kind (kind : PromptKind) (rest : List Char) :
    Text.splitOnce? "_phase_".toList (kind.name ++ "_phase_".toList ++ rest) =
      some (kind.name, rest) := by
  cases kind <;> rfl

theorem PromptKind.ofName?_eq_some_iff {cs : List Char} {kind : PromptKind} :
    ofName? cs = some kind ↔ cs = kind.name := by
  have hne : user.name ≠ system.name := by decide
  rw [ofName?]
  constructor
  · intro h
    split at h
    · rename_i hsystem
      rw [← Option.some.inj h, hsystem]
    · split at h
      · rename_i huser
        rw [← Option.some.inj h, huser]
      · cases h
  · rintro rfl
    cases kind with
    | system => exact if_pos rfl
    | user => exact (if_neg hne).trans (if_pos rfl)

theorem lt_of_natural? {bound n : Nat} {cs : List Char} (h : Digits.natural? bound cs = some n) :
    n < bound := by
  obtain ⟨k, -, hk⟩ := Option.bind_eq_some_iff.mp h
  split at hk
  · rename_i hlt
    rwa [← Option.some.inj hk]
  · cases hk

theorem phaseOf?_lt {name : String} {n : Nat} {kind : PromptKind}
    (h : phaseOf? name = some (n, kind)) : n < 2 ^ 32 := by
  simp only [phaseOf?, Option.bind_eq_bind, Option.bind_eq_some_iff, Option.pure_def,
    Option.some.injEq, Prod.mk.injEq, Prod.exists] at h
  obtain ⟨_, _, -, _, -, m, hm, rfl, -⟩ := h
  exact lt_of_natural? hm

/-- A name stands for a slot of a phase if it tells its phase and its kind. -/
theorem phase?_eq_some_iff {name : String} {kind : PromptKind} {s : Slot} :
    Slot.phase? kind name.toList = some s ↔
      ∃ n, phaseOf? name = some (n, kind) ∧ s = .phase (UInt32.ofNat n) kind := by
  simp only [Slot.phase?, phaseOf?, Option.bind_eq_bind, Option.bind_eq_some_iff, Option.pure_def,
    Option.some.injEq, after?_eq_some_iff, PromptKind.ofName?_eq_some_iff, Prod.mk.injEq,
    Prod.exists]
  constructor
  · rintro ⟨digits, hname, n, hn, rfl⟩
    exact ⟨n, ⟨_, digits, hname ▸ splitOnce?_kind kind digits, _, rfl, n, hn, rfl, rfl⟩, rfl⟩
  · rintro ⟨n, ⟨before, digits, hparts, k, rfl, m, hm, rfl, rfl⟩, rfl⟩
    exact ⟨digits, Text.eq_of_splitOnce? hparts, m, hm, rfl⟩

/-- The place of a slot. -/
def Slot.place : Slot → SlotPlace
  | allPhases kind => { group := 0, kind := kind.rank }
  | phase n kind => { group := 1, phase := n.toNat, kind := kind.rank }
  | other _ => { group := 2 }

/-- The place of a slot is known from what its name stands for, and slots that stand
    for nothing known are told apart by their names. -/
theorem slotPlace_eq (name : String) :
    slotPlace name = (Slot.ofName name).place ∧
      ∀ other, Slot.ofName name = .other other → other = name := by
  cases hkind : PromptKind.ofName? name.toList with
  | some kind =>
      have hname : Slot.ofName name = .allPhases kind := by
        rw [Slot.ofName, PromptKind.ofName?_eq_some_iff.mp hkind]
        cases kind <;> rfl
      rw [slotPlace, hkind, hname]
      exact ⟨rfl, nofun⟩
  | none =>
      -- The name is not one for all phases, and so both sides look for the number of a phase.
      have hnot : ∀ kind : PromptKind, name.toList ≠ kind.name := fun kind h => by
        rw [PromptKind.ofName?_eq_some_iff.mpr h] at hkind
        cases hkind
      have hname : Slot.ofName name = ((Slot.phase? .system name.toList).or
          (Slot.phase? .user name.toList)).getD (.other name) := by
        rw [Slot.ofName, if_neg (hnot .system), if_neg (hnot .user)]
      have hnone : ∀ kind, (∀ n, phaseOf? name ≠ some (n, kind)) →
          Slot.phase? kind name.toList = none := fun kind hne =>
        Option.eq_none_iff_forall_ne_some.mpr fun s hs => by
          obtain ⟨n, hn, -⟩ := phase?_eq_some_iff.mp hs
          exact hne n hn
      rw [slotPlace, hkind, hname]
      cases hfound : phaseOf? name with
      | none =>
          rw [hnone .system (by simp [hfound]), hnone .user (by simp [hfound])]
          exact ⟨rfl, fun other h => (Slot.other.inj h).symm⟩
      | some found =>
          obtain ⟨n, kind⟩ := found
          have hn : (UInt32.ofNat n).toNat = n := UInt32.toNat_ofNat_of_lt' (phaseOf?_lt hfound)
          have hsome := phase?_eq_some_iff.mpr ⟨n, hfound, rfl⟩
          cases kind with
          | system =>
              rw [hsome]
              exact ⟨by simp [Slot.place, hn], nofun⟩
          | user =>
              rw [hnone .system (by simp [hfound]), hsome]
              exact ⟨by simp [Slot.place, hn], nofun⟩

-- ## The Sort

namespace Slot

theorem le_total (s t : Slot) : s.le t || t.le s := by
  cases s with
  | allPhases a =>
      cases t with
      | allPhases b => simpa [le] using Nat.le_total a.rank b.rank
      | _ => rfl
  | phase m a =>
      cases t with
      | phase n b =>
          simp only [le, Bool.or_eq_true, Bool.and_eq_true, decide_eq_true_eq, beq_iff_eq,
            UInt32.lt_iff_toNat_lt, ← UInt32.toNat_inj]
          omega
      | _ => rfl
  | other a =>
      cases t with
      | other b => simpa [le] using String.le_total a b
      | _ => rfl

theorem le_trans {s t u : Slot} (hst : s.le t) (htu : t.le u) : s.le u := by
  cases s <;> cases t <;> cases u <;>
    simp only [le, Bool.or_eq_true, Bool.and_eq_true, decide_eq_true_eq, beq_iff_eq,
      UInt32.lt_iff_toNat_lt, ← UInt32.toNat_inj, Bool.false_eq_true] at hst htu ⊢
  · omega
  · omega
  · exact String.le_trans hst htu

/-- Where the sort tells two names apart or leaves them as they came, by ascending
    names, the one comes before the other. -/
theorem precedes_of_le {a b : String} (hle : (ofName a).le (ofName b))
    (htied : (ofName b).le (ofName a) → a < b) : SlotPrecedes a b := by
  obtain ⟨hplace, hother⟩ := slotPlace_eq a
  obtain ⟨hplace', hother'⟩ := slotPlace_eq b
  rw [SlotPrecedes, hplace, hplace']
  -- The groups decide, unless both names are of the same group.
  cases hs : ofName a with
  | allPhases k =>
      cases ht : ofName b with
      | allPhases l =>
          simp only [hs, ht, le, decide_eq_true_eq] at hle htied
          simp only [place]
          grind
      | phase n l => exact .inl Nat.zero_lt_one
      | other name => exact .inl Nat.two_pos
  | phase m k =>
      cases ht : ofName b with
      | allPhases l => simp [hs, ht, le] at hle
      | phase n l =>
          simp only [hs, ht, le, Bool.or_eq_true, Bool.and_eq_true, decide_eq_true_eq, beq_iff_eq,
            UInt32.lt_iff_toNat_lt, ← UInt32.toNat_inj] at hle htied
          simp only [place]
          grind
      | other name => exact .inl Nat.one_lt_two
  | other name =>
      cases ht : ofName b with
      | other name' =>
          obtain rfl : name = a := hother name hs
          obtain rfl : name' = b := hother' name' ht
          simp only [hs, ht, le, decide_eq_true_eq] at hle htied
          refine .inr ⟨rfl, .inr ⟨rfl, .inr ⟨rfl, ?_⟩⟩⟩
          exact Classical.byContradiction fun h => h (htied (String.not_lt.mp h))
      | _ => simp [hs, ht, le] at hle

end Slot

/-- A stable sort leaves those that are equal to it in the order in which they came. -/
theorem pairwise_mergeSort_of_pairwise {α : Type} (le : α → α → Bool) {r : α → α → Prop}
    (htrans : ∀ a b c, le a b → le b c → le a c) (htotal : ∀ a b, le a b || le b a)
    {xs : List α} (h : xs.Pairwise r) :
    (xs.mergeSort le).Pairwise fun a b => le a b ∧ (le b a → r a b) := by
  rw [List.pairwise_iff_forall_sublist]
  intro a b hab
  have hle : le a b := List.pairwise_iff_forall_sublist.mp (List.pairwise_mergeSort htrans htotal xs) hab
  refine ⟨hle, fun hle' => ?_⟩
  -- Those that are equal to the first come to the sort, and leave it, as one list.
  let tied (x : α) : Bool := le a x && le x a
  have htied : (xs.filter tied).Pairwise fun x y => le x y := by
    refine List.pairwise_of_forall_mem_list fun x hx y hy => ?_
    have hx' := (List.mem_filter.mp hx).2
    have hy' := (List.mem_filter.mp hy).2
    simp only [tied, Bool.and_eq_true] at hx' hy'
    exact htrans x a y hx'.2 hy'.1
  have hkept : xs.filter tied = (xs.mergeSort le).filter tied := by
    have hsub := (List.sublist_mergeSort htrans htotal htied List.filter_sublist).filter tied
    rw [List.filter_filter, funext fun x => Bool.and_self (tied x)] at hsub
    exact hsub.eq_of_length ((List.mergeSort_perm xs le).symm.filter tied).length_eq
  have hpair : [a, b].filter tied = [a, b] := by
    have hself : le a a := by simpa using htotal a a
    simp [tied, hself, hle, hle']
  have hsub : List.Sublist [a, b] (xs.filter tied) := by
    rw [hkept, ← hpair]
    exact hab.filter tied
  exact List.pairwise_iff_forall_sublist.mp h (hsub.trans List.filter_sublist)

-- ## The Slots of a Role

/-- The slots of a role in the order in which they are written. -/
def Role.slots (r : Role) : List String := (inSlotOrder r.prompts.entries).map Prod.fst

/-- The binding of each entry of a sorted list is the value that stands there. -/
theorem Entries.get?_of_mem {α : Type} {entries : List (String × α)} (h : Sorted entries)
    {e : String × α} (he : e ∈ entries) : get? e.1 entries = some e.2 := by
  induction entries with
  | nil => cases he
  | cons d rest ih =>
      obtain ⟨hhead, htail⟩ := List.pairwise_cons.mp h
      rw [get?]
      rcases List.mem_cons.mp he with rfl | he
      · exact if_pos rfl
      · have hne : e.1 ≠ d.1 := fun heq => String.lt_irrefl _ (heq ▸ hhead e he)
        rw [if_neg hne, ih htail he]

theorem Role.perm_slots (r : Role) : r.slots.Perm r.prompts.keys :=
  (List.mergeSort_perm _ _).map Prod.fst

theorem Role.pairwise_slots (r : Role) : r.slots.Pairwise SlotPrecedes := by
  have hsorted := pairwise_mergeSort_of_pairwise
    (fun a b : String × String => (Slot.ofName a.1).le (Slot.ofName b.1))
    (fun _ _ _ => Slot.le_trans) (fun _ _ => Slot.le_total _ _) r.prompts.sorted
  exact List.pairwise_map.mpr (hsorted.imp fun h => Slot.precedes_of_le h.1 h.2)

/-- There is one way only to list names in the order of slots. -/
theorem eq_of_perm_of_pairwise {as bs : List String} (has : as.Pairwise SlotPrecedes)
    (hbs : bs.Pairwise SlotPrecedes) (h : as.Perm bs) : as = bs :=
  h.eq_of_pairwise (fun _ _ _ _ hab hba => absurd hba hab.asymm) has hbs

theorem Role.nodup_keys (r : Role) : r.prompts.keys.Nodup := by
  refine List.pairwise_map.mpr (r.prompts.sorted.imp fun hlt heq => ?_)
  rw [heq] at hlt
  exact String.lt_irrefl _ hlt

/-- The lines of the prompts, slot by slot. -/
def Role.promptLines (r : Role) : List Line :=
  r.slots.flatMap fun slot => proseField 3 slot (r.prompt slot)

/-- The role with other prompts. -/
def Role.withPrompts (r : Role) (prompts : StringMap String) : Role := { r with prompts := prompts }

theorem Role.promptLines_eq (r : Role) :
    ((inSlotOrder r.prompts.entries).flatMap fun (slot, text) => proseField 3 slot text) =
      r.promptLines := by
  rw [promptLines, slots, List.flatMap_map, List.flatMap_def, List.flatMap_def]
  refine congrArg List.flatten (List.map_congr_left fun e he => ?_)
  have hmem : e ∈ r.prompts.entries := (List.mergeSort_perm _ _).mem_iff.mp he
  have hprompt : r.prompt e.1 = e.2 :=
    congrArg (Option.getD · "") (Entries.get?_of_mem r.prompts.sorted hmem)
  rw [hprompt]

/-- What is written of a role around its prompts does not depend on them. -/
theorem Role.exists_around_promptLines (r : Role) :
    ∃ before after, ∀ prompts, roleLines (r.withPrompts prompts) =
      markFirst (before ++ headed 2 "prompts" (r.withPrompts prompts).promptLines ++ after) := by
  let before :=
    [bareField 2 "role_id" (toString r.id.toNat), quotedField 2 "name" r.name,
      quotedField 2 "llm_type" r.model] ++ headed 2 "llm_params" (memberLines 3 r.parameters.entries) ++
    [bareField 2 "number_of_agents" (toString r.count.toNat)]
  let ns := r.phases.getD []
  let after := if ns.isEmpty then [] else [inlineField 2 "task_phases" (wordTexts ns)]
  refine ⟨before, after, fun prompts => ?_⟩
  rw [roleLines, promptLines_eq]
  obtain ⟨_, _, _, _, _, _, phases⟩ := r
  rcases phases with _ | _ | _ <;> rfl

/-- The prompts of a role are written slot by slot, and nothing else that is written
    of the role depends on them. Each slot is written once, in the order of names, and
    roles that have the same slots have them written alike. -/
theorem Role.slots_in_order (r : Role) :
    (∃ before after, ∀ prompts, roleLines (r.withPrompts prompts) =
      markFirst (before ++ headed 2 "prompts" (r.withPrompts prompts).promptLines ++ after)) ∧
    r.slots.Perm r.prompts.keys ∧ r.slots.Nodup ∧ r.slots.Pairwise SlotPrecedes ∧
    ∀ q : Role, (∀ slot, slot ∈ q.prompts.keys ↔ slot ∈ r.prompts.keys) → q.slots = r.slots := by
  refine ⟨r.exists_around_promptLines, r.perm_slots,
    r.perm_slots.nodup_iff.mpr r.nodup_keys, r.pairwise_slots, fun q hkeys => ?_⟩
  have hperm : q.prompts.keys.Perm r.prompts.keys :=
    (List.perm_ext_iff_of_nodup q.nodup_keys r.nodup_keys).mpr hkeys
  exact eq_of_perm_of_pairwise q.pairwise_slots r.pairwise_slots
    (q.perm_slots.trans (hperm.trans r.perm_slots.symm))

end SimStudio
