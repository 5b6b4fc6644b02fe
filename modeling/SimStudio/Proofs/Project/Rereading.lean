import SimStudio.Proofs.Project.Moments
import SimStudio.Proofs.Yaml.Reading
import SimStudio.Project.Validity

/-!
# Written Projects Read Back

What is read from the text of a project is the project, but for defaults that
are null: a null that is written says that there is no default.

A project can be read back if its values are not nested too deeply and its
delays are finite. Each record has one lemma, for a place that goes as deep as
the record does, and uses those of its parts.

## Main definitions

* `Project.Storable`: A project of which this holds throughout.
* `Project.hasNullDefault`: Whether a project has a default that is null.
* `Project.dropNulls`: A project without the defaults that are null.

## Theorems

* `Project.read_toTree`: A project is read back from its tree.
* `Project.ofYaml?_toYaml`: So it is from its text.
-/

namespace SimStudio

/-- How much deeper the values of a project may go in its file. -/
def valueDepth : Nat := 124

/-- A role whose parameters can be read back. -/
def Role.Storable (r : Role) : Prop := ∀ e ∈ r.parameters.entries, e.2.FitsIn valueDepth

/-- A field whose default can be read back. -/
def StateField.Storable (f : StateField) : Prop := ∀ v, f.default = some v → v.FitsIn valueDepth

/-- A project whose values can all be read back. -/
structure Project.Storable (p : Project) : Prop where
  roles : ∀ r ∈ p.roles, r.Storable
  fields : ∀ n, ∀ f ∈ p.state.fields n, f.Storable
  manager : p.manager.violation? = none

/-- Whether a field has a default that is null. -/
def StateField.hasNullDefault (f : StateField) : Bool := f.default.any Json.isNull

/-- Whether a project has a field with a default that is null. -/
def Project.hasNullDefault (p : Project) : Bool :=
  StateNamespace.all.any fun n => (p.state.fields n).any StateField.hasNullDefault

/-- A field without a default that is null. -/
def StateField.dropNull (f : StateField) : StateField :=
  { f with default := f.default.filter fun v => !v.isNull }

@[simp] theorem StateField.dropNull_name (f : StateField) : f.dropNull.name = f.name := rfl

/-- A schema without defaults that are null. -/
def StateSchema.dropNulls (s : StateSchema) : StateSchema :=
  ⟨s.metaFields.map StateField.dropNull, s.publicFields.map StateField.dropNull,
    s.privateFields.map StateField.dropNull⟩

/-- A project without defaults that are null. -/
def Project.dropNulls (p : Project) : Project := { p with state := p.state.dropNulls }

-- ## Defaults that are null

theorem StateField.dropNull_eq_self_iff (f : StateField) :
    f.dropNull = f ↔ f.hasNullDefault = false := by
  obtain ⟨name, type, default⟩ := f
  rw [dropNull, StateField.mk.injEq, hasNullDefault]
  cases default with
  | none => simp
  | some v => cases v <;> simp [Json.isNull]

theorem map_dropNull_eq_self_iff (fields : List StateField) :
    fields.map StateField.dropNull = fields ↔ fields.any StateField.hasNullDefault = false := by
  induction fields with
  | nil => simp
  | cons f fields ih =>
      rw [List.map_cons, List.cons.injEq, StateField.dropNull_eq_self_iff, ih, List.any_cons,
        Bool.or_eq_false_iff]

theorem StateSchema.fields_dropNulls (s : StateSchema) (n : StateNamespace) :
    s.dropNulls.fields n = (s.fields n).map StateField.dropNull := by
  cases n <;> rfl

theorem StateSchema.ext_fields {s t : StateSchema} (h : ∀ n, s.fields n = t.fields n) : s = t := by
  obtain ⟨sMeta, sPublic, sPrivate⟩ := s
  obtain ⟨tMeta, tPublic, tPrivate⟩ := t
  rw [StateSchema.mk.injEq]
  exact ⟨h .metaInfo, h .publicInfo, h .privateInfo⟩

theorem Project.hasNullDefault_eq_false_iff (p : Project) : p.hasNullDefault = false ↔
    ∀ n, (p.state.fields n).any StateField.hasNullDefault = false := by
  rw [hasNullDefault, List.any_eq_false]
  refine ⟨fun h n => ?_, fun h n _ => ?_⟩
  · exact Bool.eq_false_iff.mpr (h n (by cases n <;> decide))
  · exact Bool.eq_false_iff.mp (h n)

/-- Nothing is dropped if and only if no default is null. -/
theorem Project.dropNulls_eq_self_iff (p : Project) :
    p.dropNulls = p ↔ p.hasNullDefault = false := by
  rw [hasNullDefault_eq_false_iff]
  refine ⟨fun h n => ?_, fun h => ?_⟩
  · rw [← map_dropNull_eq_self_iff, ← StateSchema.fields_dropNulls]
    exact congrArg (fun p : Project => p.state.fields n) h
  · have hstate : p.state.dropNulls = p.state := StateSchema.ext_fields fun n => by
      rw [StateSchema.fields_dropNulls, map_dropNull_eq_self_iff]
      exact h n
    rw [dropNulls, hstate]

theorem fieldViolation?_dropNull (space : StateNamespace) (before fields : List StateField) :
    fieldViolation? space (before.map StateField.dropNull) (fields.map StateField.dropNull) =
      fieldViolation? space before fields := by
  induction fields generalizing before with
  | nil => rfl
  | cons f fields ih =>
      have hany : (before.map StateField.dropNull).any (·.name == f.name) =
          before.any (·.name == f.name) := by
        rw [List.any_map]
        rfl
      have hrest := ih (before ++ [f])
      rw [List.map_append] at hrest
      rw [List.map_cons]
      simp only [fieldViolation?, StateField.dropNull_name, hany]
      rw [← hrest]
      rfl

/-- The rules ask for no default. -/
theorem Project.violation?_dropNulls (p : Project) : p.dropNulls.violation? = p.violation? := by
  have hfields : (fun n => fieldViolation? n [] (p.state.dropNulls.fields n)) =
      fun n => fieldViolation? n [] (p.state.fields n) := by
    funext n
    rw [StateSchema.fields_dropNulls]
    exact fieldViolation?_dropNull n [] (p.state.fields n)
  simp only [violation?, dropNulls, hfields]

open Yaml Yaml.Tree

variable (d : Document) (depth : Nat)

-- ## Entries that may be left out

section optionalEntry

variable {α : Type} (name key : String) (toTree : α → Tree) (v : Option α)

theorem lookup_optionalEntry :
    (optionalEntry name toTree v).lookup key = if key = name then v.map toTree else none := by
  cases v with
  | none => simp [optionalEntry]
  | some x => 
      rw [optionalEntry, List.lookup_cons]
      by_cases h : key = name
      · simp [h]
      · simp [h, beq_eq_false_iff_ne.mpr h]

theorem keys_optionalEntry : ((optionalEntry name toTree v).map Prod.fst).Sublist [name] := by
  cases v with
  | none => exact List.nil_sublist _
  | some x => exact List.Sublist.refl _

theorem lookup_optionalEntry_self :
    (optionalEntry name toTree v).lookup name = v.map toTree := by
  rw [lookup_optionalEntry, if_pos rfl]

theorem lookup_append_optionalEntry {entries : List (String × Tree)}
    (h : entries.lookup name = none) :
    (entries ++ optionalEntry name toTree v).lookup name = v.map toTree := by
  rw [List.lookup_append, h, Option.none_or, lookup_optionalEntry_self]

end optionalEntry

theorem keys_append {xs ys : List (String × Tree)} {ms ns : List String}
    (hxs : (xs.map Prod.fst).Sublist ms) (hys : (ys.map Prod.fst).Sublist ns) :
    ((xs ++ ys).map Prod.fst).Sublist (ms ++ ns) := by
  rw [List.map_append]
  exact hxs.append hys

-- ## Parts

theorem PromptPartial.read_toTree (p : PromptPartial) :
    PromptPartial.read (p.toTree.place d (depth + 1)) = pure p := by
  refine Reading.bind_eq (read_fields d depth (List.Sublist.refl _) (by decide)) ?_
  refine Reading.bind_eq (required_of_lookup d depth rfl (text_place d depth p.id)) ?_
  refine Reading.bind_eq (required_of_lookup d depth rfl (text_place d depth p.name)) ?_
  exact Reading.bind_eq (orElse_of_lookup d depth rfl (text_place d depth p.content)) rfl

theorem Role.read_toTree {r : Role} (h : r.Storable) :
    Role.read (r.toTree.place d (valueDepth + 2)) = pure r := by
  refine Reading.bind_eq (read_fields d _ (keys_append (List.Sublist.refl _)
    (keys_optionalEntry ..)) (by decide)) ?_
  refine Reading.bind_eq (required_of_lookup d _ rfl (word_place d _ r.id)) ?_
  refine Reading.bind_eq (required_of_lookup d _ rfl (text_place d _ r.name)) ?_
  refine Reading.bind_eq (orElse_of_lookup d _ rfl (text_place d _ r.model)) ?_
  refine Reading.bind_eq (orElse_of_lookup d _ rfl (map_place d _ fun e he =>
    value_place d _ (h e he).ordered (h e he).nesting_le)) ?_
  refine Reading.bind_eq (orElse_of_lookup d _ rfl (word_place d _ r.count)) ?_
  refine Reading.bind_eq (orElse_of_lookup d _ rfl (map_place d _ fun e _ =>
    text_place d _ e.2)) ?_
  exact Reading.bind_eq (optional_of_lookup d _ (lookup_append_optionalEntry _ _ _ rfl)
    fun phases _ => ⟨by simp, list_place_self d _ fun n _ => word_place d _ n⟩) rfl

-- A default that is null is written as if it were none.
theorem StateField.optional_default {f : StateField} (h : f.Storable) :
    (fields d valueDepth ([("name", .text f.name), ("type", .text f.type)] ++
      optionalEntry "default" Json.toTree f.default)).optional "default" Format.value =
        pure f.dropNull.default := by
  have hlookup := lookup_append_optionalEntry "default" Json.toTree f.default
    (show [("name", Tree.text f.name), ("type", .text f.type)].lookup "default" = none from rfl)
  rw [dropNull]
  cases hdefault : f.default with
  | none =>
      rw [hdefault] at hlookup
      exact orElse_of_lookup_none d _ hlookup
  | some v =>
      rw [hdefault] at hlookup
      cases hnull : v.isNull with
      | true =>
          obtain rfl : v = .null := by
            cases v <;> first | rfl | cases hnull
          exact optional_of_lookup_null d _ hlookup
      | false =>
          refine (optional_of_lookup d _ hlookup fun x hx => ?_).trans ?_
          · cases hx
            exact ⟨Json.toTree_ne_null hnull,
              value_place d _ (h v hdefault).ordered (h v hdefault).nesting_le⟩
          · rw [Option.filter_some, if_pos (by rw [hnull]; rfl)]

theorem StateField.read_toTree {f : StateField} (h : f.Storable) :
    StateField.read (f.toTree.place d (valueDepth + 1)) = pure f.dropNull := by
  refine Reading.bind_eq (read_fields d _ (keys_append (List.Sublist.refl _)
    (keys_optionalEntry ..)) (by decide)) ?_
  refine Reading.bind_eq (required_of_lookup d _ rfl (text_place d _ f.name)) ?_
  refine Reading.bind_eq (required_of_lookup d _ rfl (text_place d _ f.type)) ?_
  exact Reading.bind_eq (StateField.optional_default d h) rfl

theorem StateSchema.read_toTree {s : StateSchema} (h : ∀ n, ∀ f ∈ s.fields n, f.Storable) :
    StateSchema.read (s.toTree.place d (valueDepth + 3)) = pure s.dropNulls := by
  have hspace : ∀ n, Format.list StateField.read
      ((Tree.sequence ((s.fields n).map StateField.toTree)).place d (valueDepth + 2)) =
        pure ((s.fields n).map StateField.dropNull) := fun n =>
    list_place d _ fun f hf => StateField.read_toTree d (h n f hf)
  refine Reading.bind_eq (read_fields d _ (List.Sublist.refl _) (by decide)) ?_
  refine Reading.bind_eq (orElse_of_lookup d _ rfl (hspace .metaInfo)) ?_
  refine Reading.bind_eq (orElse_of_lookup d _ rfl (hspace .publicInfo)) ?_
  exact Reading.bind_eq (orElse_of_lookup d _ rfl (hspace .privateInfo)) rfl

theorem Logging.read_toTree (l : Logging) :
    Logging.read (l.toTree.place d (depth + 1)) = pure l := by
  refine Reading.bind_eq (read_fields d _ ((keys_optionalEntry ..).cons_cons _) (by decide)) ?_
  refine Reading.bind_eq (orElse_of_lookup d _ rfl (text_place d _ l.level)) ?_
  exact Reading.bind_eq (optional_of_lookup d _ (lookup_optionalEntry_self "directory" textTree _)
    fun directory _ => ⟨by simp [textTree], text_place d _ directory⟩) rfl

theorem Content.mapM_natural? (ns : List UInt32) :
    (ns.map fun n => Content.int n.toNat).mapM
      (fun v => (v.natural? (2 ^ 32)).map UInt32.ofNat) = some ns := by
  induction ns with
  | nil => rfl
  | cons n ns ih =>
      have hn : Content.natural? (2 ^ 32) (.int n.toNat) = some n.toNat := by
        rw [natural?, if_pos ⟨by omega, by rw [Int.toNat_natCast]; exact n.toNat_lt⟩,
          Int.toNat_natCast]
      rw [List.map_cons, List.mapM_cons, hn, ih]
      simp

/-- A delay that keeps its rule is finite. -/
theorem exists_finite {kind : DelayKind} {delay : Binary64} (h : delayViolation? kind delay = none) :
    ∃ negative a, delay = .finite negative a := by
  cases delay with
  | finite negative a => exact ⟨negative, a, rfl⟩
  | infinite negative => cases h
  | nan => cases h

namespace Manager

/-- What stands behind the kind of a hybrid manager, with the content it is read as. -/
def hybridParts (phases : List UInt32) (maxDelay minDelay : Binary64) :
    List (String × Tree × Content) :=
  [("continuousPhases", .sequence (phases.map wordTree), .list (phases.map fun n => .int n.toNat)),
    ("maxActionDelay", .float maxDelay, .float maxDelay),
    ("minActionDelay", .float minDelay, .float minDelay)]

theorem ofContent?_hybridParts (phases : List UInt32) (maxDelay minDelay : Binary64) :
    ofContent? "HybridPhaseManager" (.map ((hybridParts phases maxDelay minDelay).map fun x =>
      (.text x.1, x.2.2))) = some (.hybrid phases maxDelay minDelay) := by
  have hphases := Content.mapM_natural? phases
  exact congrArg (fun ns => ns.bind fun ns => some (hybrid ns maxDelay minDelay)) hphases

theorem read_toTree {m : Manager} (h : m.violation? = none) :
    Manager.read (m.toTree.place d (depth + 2)) = pure m := by
  have hdepth : (m.toTree.place d (depth + 2)).depth ≠ 0 := Nat.succ_ne_zero _
  have hresolve := resolve_place d (depth + 2) m.toTree
  cases m with
  | turnBased => exact Reading.bind_eq (tagged_parts (List.forall_mem_nil _) hdepth hresolve) rfl
  | hybrid phases maxDelay minDelay =>
      rw [violation?, Option.or_eq_none_iff] at h
      obtain ⟨maxNegative, maxSize, rfl⟩ := exists_finite h.1
      obtain ⟨minNegative, minSize, rfl⟩ := exists_finite h.2
      have htagged : Format.tagged "type" ((hybrid phases (.finite maxNegative maxSize)
          (.finite minNegative minSize)).toTree.place d (depth + 2)) =
            pure ("HybridPhaseManager", .map ((hybridParts phases (.finite maxNegative maxSize)
              (.finite minNegative minSize)).map fun x => (.text x.1, x.2.2))) := by
        refine tagged_parts (fun x hx => ?_) hdepth hresolve
        simp only [hybridParts, List.mem_cons, List.not_mem_nil, or_false] at hx
        rcases hx with rfl | rfl | rfl
        · exact ⟨by simp, content_words d depth phases⟩
        · exact ⟨by simp, content_float d _ maxNegative maxSize⟩
        · exact ⟨by simp, content_float d _ minNegative minSize⟩
      refine Reading.bind_eq htagged ?_
      exact congrArg Reading.ofOption (ofContent?_hybridParts phases _ _)

end Manager

theorem Timestamp.read_toTree (t : Timestamp) :
    Timestamp.read (t.toTree.place d depth) = pure t := by
  refine Reading.bind_eq (text_place d depth t.text) ?_
  rw [Timestamp.read?_text]
  rfl

theorem integer_toInt (i : Int64) :
    (Int64.ofInt <$> Format.integer ((Tree.int i.toInt).place d depth) : Reading Int64) = pure i := by
  rw [integer_place d depth ⟨i.le_toInt, i.toInt_lt⟩, map_pure, Int64.ofInt_toInt]

namespace Project

/-- The entries of a project in its file. -/
def entries (p : Project) : List (String × Tree) :=
  optionalEntry "id" textTree (if p.id.isEmpty then none else some p.id) ++
    optionalEntry "createdAt" Timestamp.toTree p.createdAt ++
    [("name", .text p.name)] ++
    optionalEntry "description" textTree p.description ++
    optionalEntry "gameId" (fun i : Int64 => .int i.toInt) p.gameId ++
    [("promptPartials", .sequence (p.partials.map PromptPartial.toTree)),
      ("agentRoles", .sequence (p.roles.map Role.toTree)),
      ("state", p.state.toTree), ("manager", p.manager.toTree), ("logging", p.logging.toTree)]

theorem toTree_eq (p : Project) : p.toTree = .mapping p.entries := by
  rw [toTree, entries]
  split <;> rfl

theorem entries_ne_nil (p : Project) : p.entries ≠ [] := by
  simp [entries]

theorem keys_entries (p : Project) : (p.entries.map Prod.fst).Sublist
    ["id", "createdAt", "name", "description", "gameId", "promptPartials", "agentRoles", "state",
      "manager", "logging"] :=
  keys_append (keys_append (keys_append (keys_append (keys_append (keys_optionalEntry ..)
    (keys_optionalEntry ..)) (List.Sublist.refl _)) (keys_optionalEntry ..))
    (keys_optionalEntry ..)) (List.Sublist.refl _)

-- An empty id is left out, and is what a project without one gets.
theorem orElse_id (p : Project) :
    (fields d depth p.entries).orElse "id" Format.text "" = pure p.id := by
  cases hid : p.id.isEmpty with
  | true =>
      have hlookup : p.entries.lookup "id" = none := by
        simp [entries, -List.append_assoc, List.lookup_append, lookup_optionalEntry,
          List.lookup_cons, hid]
      rw [String.isEmpty_iff.mp hid]
      exact orElse_of_lookup_none d depth hlookup
  | false =>
      have hlookup : p.entries.lookup "id" = some (.text p.id) := by
        simp [entries, -List.append_assoc, List.lookup_append, lookup_optionalEntry,
          List.lookup_cons, hid, textTree]
      exact orElse_of_lookup d depth hlookup (text_place d depth p.id)

/-- A project is read back from its tree. -/
theorem read_toTree {p : Project} (h : p.Storable) :
    read (p.toTree.place d (valueDepth + 4)) = pure p.dropNulls := by
  have hlookup : p.entries.lookup "createdAt" = p.createdAt.map Timestamp.toTree ∧
      p.entries.lookup "name" = some (.text p.name) ∧
      p.entries.lookup "description" = p.description.map textTree ∧
      p.entries.lookup "gameId" = p.gameId.map (fun i : Int64 => .int i.toInt) ∧
      p.entries.lookup "promptPartials" = some (.sequence (p.partials.map PromptPartial.toTree)) ∧
      p.entries.lookup "agentRoles" = some (.sequence (p.roles.map Role.toTree)) ∧
      p.entries.lookup "state" = some p.state.toTree ∧
      p.entries.lookup "manager" = some p.manager.toTree ∧
      p.entries.lookup "logging" = some p.logging.toTree := by
    simp [entries, -List.append_assoc, List.lookup_append, lookup_optionalEntry, List.lookup_cons]
  obtain ⟨hcreatedAt, hname, hdescription, hgameId, hpartials, hroles, hstate, hmanager, hlogging⟩ :=
    hlookup
  rw [toTree_eq]
  -- Field by field, in the order in which they are read.
  refine Reading.bind_eq (read_fields d _ p.keys_entries (by decide)) ?_
  refine Reading.bind_eq (orElse_id d _ p) ?_
  refine Reading.bind_eq (optional_of_lookup d _ hcreatedAt fun t _ =>
    ⟨by simp [Timestamp.toTree], t.read_toTree d _⟩) ?_
  refine Reading.bind_eq (required_of_lookup d _ hname (text_place d _ p.name)) ?_
  refine Reading.bind_eq (optional_of_lookup d _ hdescription fun s _ =>
    ⟨by simp [textTree], text_place d _ s⟩) ?_
  refine Reading.bind_eq (optional_of_lookup d _ hgameId fun i _ =>
    ⟨by simp, integer_toInt d _ i⟩) ?_
  refine Reading.bind_eq (orElse_of_lookup d _ hpartials (list_place_self d _ fun x _ =>
    x.read_toTree d _)) ?_
  refine Reading.bind_eq (orElse_of_lookup d _ hroles (list_place_self d _ fun r hr =>
    Role.read_toTree d (h.roles r hr))) ?_
  refine Reading.bind_eq (orElse_of_lookup d _ hstate (StateSchema.read_toTree d h.fields)) ?_
  refine Reading.bind_eq (orElse_of_lookup d _ hmanager (Manager.read_toTree d _ h.manager)) ?_
  exact Reading.bind_eq (orElse_of_lookup d _ hlogging (p.logging.read_toTree d _)) rfl

/-- A project is read back from its text. -/
theorem ofYaml?_toYaml {p : Project} (h : p.Storable) : ofYaml? p.toYaml = some p.dropNulls := by
  have hdocument : document? p.toYaml = some (some ⟨p.toTree.node, []⟩) := by
    rw [toYaml, toTree_eq]
    exact Tree.document?_write p.entries_ne_nil
  have hread : ∀ budget, read (⟨⟨p.toTree.node, []⟩, some p.toTree.node, depthLimit⟩ : Place)
      budget = some (p.dropNulls, budget) := fun budget => congrFun (read_toTree _ h) budget
  rw [ofYaml?, readText?, hdocument]
  simp [hread]

end Project

end SimStudio
