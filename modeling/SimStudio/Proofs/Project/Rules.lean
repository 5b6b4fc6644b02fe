import SimStudio.Proofs.Number.Rounding
import SimStudio.Project.Validity
import Mathlib.Data.List.Nodup

/-!
# Which Projects Keep the Rules

The rules are checked one after the other: a walk through each list, in which every
element is compared with those before it, and all walks in a row. Two things are said
about that. A project is accepted exactly if it keeps the rules as they are meant,
that no two ids or names agree and so on (`KeepsRules`). And otherwise it is the first
rule that is broken in the order of the checks which is reported (`places`).

Both follow from one relation between a list of places and what a check of them
reports (`FirstAmong`). It holds of a single check, checks in a row keep it, and so
does a walk through a list, by induction on what is left of it (`firstAmong_walk`).
Rules are broken at no other places (`mem_places`), so the first of all that is broken
is found.

## Main definitions

* `Repeats`: An element of a list agrees with one before it.
* `Binary64.IsDelay`: A number that is finite and not below zero.
* `Project.KeepsRules`: The rules for projects, as they are meant.
* `RulePlace`: A place at which a rule is checked.
* `Project.places`: All places of a project, in order.
* `Project.Breaks`: What is wrong at a place.
* `Project.FirstAmong`: The first thing that is wrong at places in a row.

## Theorems

* `nodup_map_iff`: No two elements agree if none agrees with one before it.
* `Binary64.isDelay_iff`: Delays are what the check of delays accepts.
* `Project.FirstAmong.append`: Checks in a row.
* `Project.firstAmong_walk`: What a walk through a list reports.
* `Project.firstAmong_violation?`: What all checks of a project report.
* `Project.keepsRules_iff`: The rules are kept if nothing is wrong anywhere.
* `Project.validate_decides`: Projects are accepted or the first violation is told.
-/

namespace SimStudio

/-- The element of a list at an index, counted from zero, agrees with one before it. -/
def Repeats {α β : Type} (key : α → β) (xs : List α) (index : Nat) (x : α) : Prop :=
  xs[index]? = some x ∧ ∃ y ∈ xs.take index, key y = key x

/-- No two elements of a list agree if none agrees with one before it. -/
theorem nodup_map_iff {α β : Type} {key : α → β} {xs : List α} :
    (xs.map key).Nodup ↔ ∀ index x, ¬Repeats key xs index x := by
  rw [List.nodup_iff_getElem?_ne_getElem?]
  constructor
  · rintro h index x ⟨hx, y, hy, hkey⟩
    rcases List.mem_take_iff_getElem.mp hy with ⟨i, hi, rfl⟩
    have hlt : index < xs.length := (List.getElem?_eq_some_iff.mp hx).1
    refine h i index (by omega) (by rw [List.length_map]; exact hlt) ?_
    rw [List.getElem?_map, List.getElem?_map, hx, List.getElem?_eq_getElem (by omega),
      Option.map_some, Option.map_some, hkey]
  · intro h i j hij hj heq
    rw [List.length_map] at hj
    rw [List.getElem?_map, List.getElem?_map, List.getElem?_eq_getElem hj,
      List.getElem?_eq_getElem (by omega)] at heq
    refine h j xs[j] ⟨List.getElem?_eq_getElem hj, xs[i], ?_, Option.some.inj heq⟩
    exact List.mem_take_iff_getElem.mpr ⟨i, by omega, rfl⟩

/-- Where an element stands behind others, it is these that it can repeat. -/
theorem repeats_iff {α β : Type} [BEq β] [LawfulBEq β] {key : α → β} {xs before after : List α}
    {x y : α} (h : xs = before ++ x :: after) :
    Repeats key xs before.length y ↔ before.any (key · == key x) = true ∧ y = x := by
  subst h
  unfold Repeats
  rw [List.getElem?_append_right (Nat.le_refl _), Nat.sub_self, List.getElem?_cons_zero,
    List.take_left, List.any_eq_true]
  simp only [Option.some.injEq, beq_iff_eq]
  constructor
  · rintro ⟨rfl, hrepeated⟩
    exact ⟨hrepeated, rfl⟩
  · rintro ⟨hrepeated, rfl⟩
    exact ⟨rfl, hrepeated⟩

namespace Binary64

/-- The number that a value stands for, if it is finite. -/
def number? : Binary64 → Option ℚ
  | .finite negative a => some (if negative then -a.value else a.value)
  | _ => none

/-- A number that is finite and not below zero. -/
def IsDelay (d : Binary64) : Prop := ∃ x, d.number? = some x ∧ 0 ≤ x

/-- Delays are accepted, and nothing else: neither zero is below zero. -/
theorem isDelay_iff {d : Binary64} : d.IsDelay ↔ (d.isFinite && !d.isNegative) = true := by
  unfold IsDelay
  cases d with
  | finite negative a =>
      have hvalue : 0 ≤ a.value := mul_nonneg (Nat.cast_nonneg _) a.unit_pos.le
      have hzero : a.value ≤ 0 ↔ a.isZero = true := by
        rw [a.isZero_iff]
        constructor
        · intro hle
          have heq : (a.mantissa : ℚ) * a.unit = 0 := le_antisymm hle hvalue
          rcases mul_eq_zero.mp heq with hmantissa | hunit
          · exact_mod_cast hmantissa
          · exact absurd hunit a.unit_pos.ne'
        · intro hmantissa
          rw [Magnitude.value, hmantissa, Nat.cast_zero, zero_mul]
      cases negative with
      | false => simp [number?, isFinite, isNegative, hvalue]
      | true => simp [number?, isFinite, isNegative, hzero]
  | infinite negative => simp [number?, isFinite]
  | nan => simp [number?, isFinite]

instance (d : Binary64) : Decidable d.IsDelay := decidable_of_iff _ isDelay_iff.symm

end Binary64

/-- A delay of a manager, if it has delays. -/
def Manager.delay? : Manager → DelayKind → Option Binary64
  | .turnBased, _ => none
  | .hybrid _ maxDelay _, .max => some maxDelay
  | .hybrid _ _ minDelay, .min => some minDelay

/-- A place at which a rule for projects is checked. The elements of lists are counted
    from zero. -/
inductive RulePlace
  | name
  | partialId (index : Nat)
  | partialName (index : Nat)
  | roleId (index : Nat)
  /-- Whether a field has a name. -/
  | fieldNamed (space : StateNamespace) (index : Nat)
  | fieldName (space : StateNamespace) (index : Nat)
  | delay (kind : DelayKind)

namespace Project

/-- The rules for projects. -/
structure KeepsRules (p : Project) : Prop where
  named : ∃ c ∈ p.name.toList, Text.isBlank c = false
  partialIds : (p.partials.map PromptPartial.id).Nodup
  partialNames : (p.partials.map PromptPartial.name).Nodup
  roleIds : (p.roles.map Role.id).Nodup
  fieldsNamed : ∀ space, ∀ f ∈ p.state.fields space, f.name ≠ ""
  fieldNames : ∀ space, ((p.state.fields space).map StateField.name).Nodup
  /-- Nothing is asked of the two together. -/
  delays : ∀ kind d, p.manager.delay? kind = some d → d.IsDelay

/-- The places at which a partial is checked. -/
def partialPlaces (index : Nat) : List RulePlace := [.partialId index, .partialName index]

/-- The places at which a field of a namespace is checked. -/
def fieldPlaces (space : StateNamespace) (index : Nat) : List RulePlace :=
  [.fieldNamed space index, .fieldName space index]

/-- The places at which a project is checked, in order. -/
def places (p : Project) : List RulePlace :=
  [.name] ++ ((List.range p.partials.length).flatMap partialPlaces ++
    ((List.range p.roles.length).flatMap (fun index => [.roleId index]) ++
    ((StateNamespace.all.flatMap fun space =>
      (List.range (p.state.fields space).length).flatMap (fieldPlaces space)) ++
    [.delay .max, .delay .min])))

/-- What is wrong with a project at a place: an element of a list agrees with one before
    it, or a rule is broken by an element itself. -/
def Breaks (p : Project) : RulePlace → Violation → Prop
  | .name, v => Text.AllBlank p.name ∧ v = .emptyProjectName
  | .partialId index, v =>
      ∃ x, Repeats PromptPartial.id p.partials index x ∧ v = .duplicatePartialId x.id
  | .partialName index, v =>
      ∃ x, Repeats PromptPartial.name p.partials index x ∧ v = .duplicatePartialName x.name
  | .roleId index, v => ∃ r, Repeats Role.id p.roles index r ∧ v = .duplicateRoleId r.id r.name
  | .fieldNamed space index, v =>
      ∃ f, (p.state.fields space)[index]? = some f ∧ f.name = "" ∧ v = .emptyFieldName space
  | .fieldName space index, v =>
      ∃ f, Repeats StateField.name (p.state.fields space) index f ∧ v = .duplicateField space f.name
  | .delay kind, v => ∃ d, p.manager.delay? kind = some d ∧ ¬d.IsDelay ∧ v = .badDelay kind d

/-- What is reported is what is wrong at the first of the places where anything is. -/
def FirstAmong (p : Project) (places : List RulePlace) : Option Violation → Prop
  | none => ∀ place ∈ places, ∀ v, ¬p.Breaks place v
  | some v => ∃ before place after, places = before ++ place :: after ∧ p.Breaks place v ∧
      ∀ earlier ∈ before, ∀ w, ¬p.Breaks earlier w

-- ## Checks in a Row

variable {p : Project}

theorem firstAmong_nil : p.FirstAmong [] none := fun _ hplace => absurd hplace List.not_mem_nil

/-- A single check reports what is wrong at its place. -/
theorem firstAmong_single {place : RulePlace} {broken : Prop} [Decidable broken] {v : Violation}
    (h : ∀ w, p.Breaks place w ↔ broken ∧ w = v) :
    p.FirstAmong [place] (if broken then some v else none) := by
  by_cases hbroken : broken
  · rw [if_pos hbroken]
    exact ⟨[], place, [], rfl, (h v).mpr ⟨hbroken, rfl⟩,
      fun _ hearlier => absurd hearlier List.not_mem_nil⟩
  · rw [if_neg hbroken]
    intro other hother w hw
    rw [List.mem_singleton.mp hother] at hw
    exact hbroken ((h w).mp hw).1

/-- Later checks count only where the earlier ones have nothing to report. -/
theorem FirstAmong.append {xs ys : List RulePlace} {a b : Option Violation}
    (hxs : p.FirstAmong xs a) (hys : p.FirstAmong ys b) : p.FirstAmong (xs ++ ys) (a.or b) := by
  cases a with
  | some v =>
      rcases hxs with ⟨before, place, after, rfl, hbreaks, hbefore⟩
      refine ⟨before, place, after ++ ys, ?_, hbreaks, hbefore⟩
      rw [List.append_assoc, List.cons_append]
  | none =>
      cases b with
      | none =>
          intro place hplace
          rcases List.mem_append.mp hplace with hplace | hplace
          · exact hxs place hplace
          · exact hys place hplace
      | some v =>
          rcases hys with ⟨before, place, after, rfl, hbreaks, hbefore⟩
          refine ⟨xs ++ before, place, after, ?_, hbreaks, fun earlier hearlier => ?_⟩
          · rw [List.append_assoc]
          · rcases List.mem_append.mp hearlier with hearlier | hearlier
            · exact hxs earlier hearlier
            · exact hbefore earlier hearlier

theorem firstAmong_findSome? {α : Type} {placesOf : α → List RulePlace}
    {check : α → Option Violation} (h : ∀ x, p.FirstAmong (placesOf x) (check x)) (xs : List α) :
    p.FirstAmong (xs.flatMap placesOf) (xs.findSome? check) := by
  induction xs with
  | nil => exact firstAmong_nil
  | cons x xs ih =>
      have hcons : (x :: xs).findSome? check = (check x).or (xs.findSome? check) := by
        rw [List.findSome?_cons]
        cases check x with
        | none => rfl
        | some v => rfl
      rw [List.flatMap_cons, hcons]
      exact (h x).append ih

/-- A walk through a list checks every element with those before it. It reports what is
    wrong at the first of the places that are still to come. -/
theorem firstAmong_walk {α : Type} {placesOf : Nat → List RulePlace}
    {walk : List α → List α → Option Violation} (check : List α → α → Option Violation)
    (hnil : ∀ before, walk before [] = none)
    (hcons : ∀ before x rest,
      walk before (x :: rest) = (check before x).or (walk (before ++ [x]) rest))
    (before rest : List α)
    (hcheck : ∀ earlier x later, before ++ rest = earlier ++ x :: later →
      p.FirstAmong (placesOf earlier.length) (check earlier x)) :
    p.FirstAmong ((List.range' before.length rest.length).flatMap placesOf) (walk before rest) := by
  -- Each element that has been checked joins those before, so they are general.
  induction rest generalizing before with
  | nil =>
      rw [hnil]
      exact firstAmong_nil
  | cons x rest ih =>
      have hlength : before.length + 1 = (before ++ [x]).length := by
        rw [List.length_append, List.length_singleton]
      rw [hcons, List.length_cons, List.range'_succ, List.flatMap_cons, hlength]
      refine (hcheck before x rest rfl).append (ih (before ++ [x]) fun earlier y later hparts => ?_)
      rw [List.append_assoc, List.singleton_append] at hparts
      exact hcheck earlier y later hparts

-- ## The Checks

/-- An element is compared with those before it. -/
theorem firstAmong_repeats {α β : Type} [BEq β] [LawfulBEq β] {key : α → β}
    {report : α → Violation} {xs before after : List α} {x : α} (place : RulePlace)
    (hplace : ∀ w, p.Breaks place w ↔ ∃ y, Repeats key xs before.length y ∧ w = report y)
    (hparts : xs = before ++ x :: after) :
    p.FirstAmong [place] (if before.any (key · == key x) then some (report x) else none) := by
  refine firstAmong_single fun w => ?_
  rw [hplace]
  constructor
  · rintro ⟨y, hrepeats, rfl⟩
    rcases (repeats_iff hparts).mp hrepeats with ⟨hany, rfl⟩
    exact ⟨hany, rfl⟩
  · rintro ⟨hany, rfl⟩
    exact ⟨x, (repeats_iff hparts).mpr ⟨hany, rfl⟩, rfl⟩

theorem firstAmong_partialViolation? :
    p.FirstAmong ((List.range p.partials.length).flatMap partialPlaces)
      (partialViolation? [] p.partials) := by
  rw [List.range_eq_range']
  refine firstAmong_walk (fun before x =>
    (if before.any (·.id == x.id) then some (.duplicatePartialId x.id) else none).or
      (if before.any (·.name == x.name) then some (.duplicatePartialName x.name) else none))
    (fun _ => rfl) (fun before x rest => ?_) [] _ fun before x after hparts => ?_
  · rw [partialViolation?]
    split
    · rfl
    · split
      · rfl
      · rfl
  · exact (firstAmong_repeats (.partialId before.length) (fun _ => Iff.rfl) hparts).append
      (firstAmong_repeats (.partialName before.length) (fun _ => Iff.rfl) hparts)

theorem firstAmong_roleViolation? :
    p.FirstAmong ((List.range p.roles.length).flatMap fun index => [.roleId index])
      (roleViolation? [] p.roles) := by
  rw [List.range_eq_range']
  refine firstAmong_walk (fun before r =>
    if before.any (·.id == r.id) then some (.duplicateRoleId r.id r.name) else none)
    (fun _ => rfl) (fun before r rest => ?_) [] _ fun before r after hparts => ?_
  · rw [roleViolation?]
    split
    · rfl
    · rfl
  · exact firstAmong_repeats (.roleId before.length) (fun _ => Iff.rfl) hparts

theorem firstAmong_fieldViolation? (space : StateNamespace) :
    p.FirstAmong ((List.range (p.state.fields space).length).flatMap (fieldPlaces space))
      (fieldViolation? space [] (p.state.fields space)) := by
  rw [List.range_eq_range']
  refine firstAmong_walk (fun before f =>
    (if f.name.isEmpty then some (.emptyFieldName space) else none).or
      (if before.any (·.name == f.name) then some (.duplicateField space f.name) else none))
    (fun _ => rfl) (fun before f rest => ?_) [] _ fun before f after hparts => ?_
  · rw [fieldViolation?]
    split
    · rfl
    · split
      · rfl
      · rfl
  -- Each field is checked for two things, and that it has a name comes first.
  · have hnamed : p.FirstAmong [.fieldNamed space before.length]
        (if f.name.isEmpty then some (.emptyFieldName space) else none) := by
      refine firstAmong_single fun w => ?_
      have hparts : p.state.fields space = before ++ f :: after := hparts
      unfold Breaks
      dsimp only
      rw [hparts, List.getElem?_append_right (Nat.le_refl _), Nat.sub_self,
        List.getElem?_cons_zero, String.isEmpty_iff]
      constructor
      · rintro ⟨_, hfound, hempty, rfl⟩
        rw [Option.some.inj hfound]
        exact ⟨hempty, rfl⟩
      · rintro ⟨hempty, rfl⟩
        exact ⟨f, rfl, hempty, rfl⟩
    exact hnamed.append
      (firstAmong_repeats (.fieldName space before.length) (fun _ => Iff.rfl) hparts)

theorem firstAmong_delay (kind : DelayKind) :
    p.FirstAmong [.delay kind] ((p.manager.delay? kind).bind (delayViolation? kind)) := by
  cases hfound : p.manager.delay? kind with
  | none =>
      rintro place hplace v hbreaks
      rw [List.mem_singleton.mp hplace] at hbreaks
      rcases hbreaks with ⟨d, hd, -, -⟩
      rw [hfound] at hd
      cases hd
  | some d =>
      have hcheck : delayViolation? kind d =
          if ¬d.IsDelay then some (.badDelay kind d) else none := by
        unfold delayViolation?
        by_cases hdelay : d.IsDelay
        · rw [if_pos (Binary64.isDelay_iff.mp hdelay), if_neg (not_not_intro hdelay)]
        · rw [if_neg (mt Binary64.isDelay_iff.mpr hdelay), if_pos hdelay]
      rw [Option.bind_some, hcheck]
      refine firstAmong_single fun w => ?_
      unfold Breaks
      dsimp only
      rw [hfound]
      constructor
      · rintro ⟨_, hd, hdelay, rfl⟩
        rw [Option.some.inj hd]
        exact ⟨hdelay, rfl⟩
      · rintro ⟨hdelay, rfl⟩
        exact ⟨d, rfl, hdelay, rfl⟩

theorem firstAmong_managerViolation? :
    p.FirstAmong [.delay .max, .delay .min] p.manager.violation? := by
  have hboth : p.manager.violation? = ((p.manager.delay? .max).bind (delayViolation? .max)).or
      ((p.manager.delay? .min).bind (delayViolation? .min)) := by
    cases p.manager with
    | turnBased => rfl
    | hybrid phases maxDelay minDelay => rfl
  rw [hboth]
  exact (firstAmong_delay .max).append (firstAmong_delay .min)

/-- All checks in a row report what is wrong at the first place of all. -/
theorem firstAmong_violation? (p : Project) : p.FirstAmong p.places p.violation? := by
  have hname : p.FirstAmong [.name]
      (if Text.AllBlank p.name then some .emptyProjectName else none) :=
    firstAmong_single fun _ => Iff.rfl
  have hrow : p.violation? =
      (if Text.AllBlank p.name then some .emptyProjectName else none).or
        ((partialViolation? [] p.partials).or ((roleViolation? [] p.roles).or
          ((StateNamespace.all.findSome? fun n => fieldViolation? n [] (p.state.fields n)).or
            p.manager.violation?))) := by
    unfold violation?
    split
    · rfl
    · rfl
  rw [hrow]
  exact hname.append (firstAmong_partialViolation?.append (firstAmong_roleViolation?.append
    ((firstAmong_findSome? firstAmong_fieldViolation? _).append firstAmong_managerViolation?)))

-- ## What Is Wrong Nowhere

theorem Repeats.lt_length {α β : Type} {key : α → β} {xs : List α} {index : Nat} {x : α}
    (h : Repeats key xs index x) : index < xs.length :=
  (List.getElem?_eq_some_iff.mp h.1).1

theorem StateNamespace.mem_all (space : StateNamespace) : space ∈ StateNamespace.all := by
  cases space with
  | metaInfo => decide
  | publicInfo => decide
  | privateInfo => decide

/-- Rules are broken only at the places of a project. -/
theorem mem_places {place : RulePlace} {v : Violation} (h : p.Breaks place v) :
    place ∈ p.places := by
  unfold places
  simp only [List.mem_append, List.mem_flatMap, List.mem_range, List.mem_cons,
    List.not_mem_nil, or_false, partialPlaces, fieldPlaces]
  cases place with
  | name => exact .inl rfl
  | partialId index =>
      rcases h with ⟨x, hrepeats, -⟩
      exact .inr (.inl ⟨index, Repeats.lt_length hrepeats, .inl rfl⟩)
  | partialName index =>
      rcases h with ⟨x, hrepeats, -⟩
      exact .inr (.inl ⟨index, Repeats.lt_length hrepeats, .inr rfl⟩)
  | roleId index =>
      rcases h with ⟨r, hrepeats, -⟩
      exact .inr (.inr (.inl ⟨index, Repeats.lt_length hrepeats, rfl⟩))
  | fieldNamed space index =>
      rcases h with ⟨f, hfound, -, -⟩
      exact .inr (.inr (.inr (.inl ⟨space, StateNamespace.mem_all space, index,
        (List.getElem?_eq_some_iff.mp hfound).1, .inl rfl⟩)))
  | fieldName space index =>
      rcases h with ⟨f, hrepeats, -⟩
      exact .inr (.inr (.inr (.inl ⟨space, StateNamespace.mem_all space, index,
        Repeats.lt_length hrepeats, .inr rfl⟩)))
  | delay kind =>
      refine .inr (.inr (.inr (.inr ?_)))
      cases kind with
      | max => exact .inl rfl
      | min => exact .inr rfl

/-- The rules are kept if nothing is wrong at any place. -/
theorem keepsRules_iff_forall : p.KeepsRules ↔ ∀ place v, ¬p.Breaks place v := by
  -- Each kind of place belongs to one rule, so that both ways go through the rules.
  constructor
  · intro h place v hbreaks
    cases place with
    | name =>
        rcases h.named with ⟨c, hc, hblank⟩
        rw [hbreaks.1 c hc] at hblank
        cases hblank
    | partialId index =>
        rcases hbreaks with ⟨x, hrepeats, -⟩
        exact nodup_map_iff.mp h.partialIds index x hrepeats
    | partialName index =>
        rcases hbreaks with ⟨x, hrepeats, -⟩
        exact nodup_map_iff.mp h.partialNames index x hrepeats
    | roleId index =>
        rcases hbreaks with ⟨r, hrepeats, -⟩
        exact nodup_map_iff.mp h.roleIds index r hrepeats
    | fieldNamed space index =>
        rcases hbreaks with ⟨f, hfound, hempty, -⟩
        exact h.fieldsNamed space f (List.mem_of_getElem? hfound) hempty
    | fieldName space index =>
        rcases hbreaks with ⟨f, hrepeats, -⟩
        exact nodup_map_iff.mp (h.fieldNames space) index f hrepeats
    | delay kind =>
        rcases hbreaks with ⟨d, hd, hdelay, -⟩
        exact hdelay (h.delays kind d hd)
  · intro h
    refine ⟨?_, nodup_map_iff.mpr fun index x hrepeats => h (.partialId index) _ ⟨x, hrepeats, rfl⟩,
      nodup_map_iff.mpr fun index x hrepeats => h (.partialName index) _ ⟨x, hrepeats, rfl⟩,
      nodup_map_iff.mpr fun index r hrepeats => h (.roleId index) _ ⟨r, hrepeats, rfl⟩,
      fun space f hf hempty => ?_, fun space => nodup_map_iff.mpr fun index f hrepeats =>
        h (.fieldName space index) _ ⟨f, hrepeats, rfl⟩, fun kind d hd => ?_⟩
    · by_contra hnone
      refine h .name _ ⟨fun c hc => ?_, rfl⟩
      by_contra hblank
      exact hnone ⟨c, hc, Bool.eq_false_iff.mpr hblank⟩
    · rcases List.mem_iff_getElem?.mp hf with ⟨index, hfound⟩
      exact h (.fieldNamed space index) _ ⟨f, hfound, hempty, rfl⟩
    · by_contra hdelay
      exact h (.delay kind) _ ⟨d, hd, hdelay, rfl⟩

/-- The rules are kept if no check reports anything. -/
theorem keepsRules_iff : p.KeepsRules ↔ p.violation? = none := by
  have hfirst := p.firstAmong_violation?
  rw [keepsRules_iff_forall]
  cases hfound : p.violation? with
  | none =>
      rw [hfound] at hfirst
      exact iff_of_true (fun place v hbreaks => hfirst place (mem_places hbreaks) v hbreaks) rfl
  | some v =>
      rw [hfound] at hfirst
      rcases hfirst with ⟨before, place, after, -, hbreaks, -⟩
      exact iff_of_false (fun h => h place v hbreaks) nofun

/-- A project is accepted, and nothing about it changed, if it keeps the rules. -/
theorem validate_eq_ok_iff : p.validate = .ok p ↔ p.KeepsRules := by
  rw [keepsRules_iff]
  unfold validate
  cases p.violation? with
  | none => exact iff_of_true rfl rfl
  | some v => exact iff_of_false nofun nofun

/-- A project is accepted exactly if it keeps the rules. Otherwise what is reported is what
    is wrong at the first place, in the order of the checks, where anything is. -/
theorem validate_decides (p : Project) :
    (p.validate = .ok p ↔ p.KeepsRules) ∧
    (p.KeepsRules ∨ ∃ before place after v, p.validate = .error (.violation v) ∧
      p.places = before ++ place :: after ∧ p.Breaks place v ∧
      ∀ earlier ∈ before, ∀ w, ¬p.Breaks earlier w) := by
  refine ⟨validate_eq_ok_iff, ?_⟩
  have hfirst := p.firstAmong_violation?
  rw [keepsRules_iff]
  unfold validate
  cases hfound : p.violation? with
  | none => exact .inl rfl
  | some v =>
      rw [hfound] at hfirst
      rcases hfirst with ⟨before, place, after, hplaces, hbreaks, hbefore⟩
      exact .inr ⟨before, place, after, v, rfl, hplaces, hbreaks, hbefore⟩

end Project

end SimStudio
