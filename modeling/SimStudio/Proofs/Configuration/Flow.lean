import SimStudio.Project.Validity
import SimStudio.Proofs.Configuration.Decoding

/-!
# Values Written as JSON

A value is laid out line by line, except where an item of a list is a list, or
is an object with nothing to tell. Such an item stands on its line as JSON, and
JSON knows nothing of the way in which a configuration is written: it keeps a
member that is null, which everywhere else leaves no line.

So a configuration does not forget quite all members that are null. It forgets
them at a key, and in the fields of an item, at every depth; it keeps those in
what is written as JSON. `compile_pruned_iff` says that these are all that it
keeps: the texts of a project and of the same project without its null members
agree exactly if no value that is written as JSON has such a member.

Both directions come from the outlines. A text determines its table
(`Project.rows_injective`), and from there it is one row, one member and one
item after the other. On the way down the values that are written as JSON are
collected, and at such a value the claim is that its JSON text determines it.

## Main definitions

* `Json.flowValues`: The values below a key that are written as JSON.
* `Project.flowValues`: The same of a project.
* `Project.pruned`: A project without its members that are null.

## Theorems

* `Json.forgotten`: When a value and its pruning have one outline.
* `Project.rows_pruned_iff`: When they have one table.
* `compile_pruned_iff`: When a project and its pruning have one text.
-/

namespace SimStudio

namespace Json

mutual

/-- The values that are written as JSON, in a value at a key. -/
def flowValues : Json → List Json
  | array items => if items.all isInline then [] else flowItems items
  | object members => flowMembers members
  | _ => []

/-- The values that are written as JSON, in items. -/
def flowItems : List Json → List Json
  | [] => []
  | v :: rest => flowItem v ++ flowItems rest

/-- The values that are written as JSON, in an item. -/
def flowItem : Json → List Json
  | array items => [array items]
  | object members => if allNull members then [object members] else flowMembers members
  | _ => []

/-- The values that are written as JSON, in members. -/
def flowMembers : List (String × Json) → List Json
  | [] => []
  | (_, v) :: rest => flowValues v ++ flowMembers rest

end

theorem flowItems_eq (items : List Json) : flowItems items = items.flatMap flowItem := by
  induction items with
  | nil => rfl
  | cons v rest ih => rw [flowItems, ih, List.flatMap_cons]

theorem flowMembers_eq (members : List (String × Json)) :
    flowMembers members = members.flatMap fun m => m.2.flowValues := by
  induction members with
  | nil => rfl
  | cons m rest ih =>
      obtain ⟨key, v⟩ := m
      rw [flowMembers, ih, List.flatMap_cons]

theorem isNull_prune (v : Json) : v.prune.isNull = v.isNull := by
  cases v <;> rfl

theorem isInline_prune (v : Json) : isInline v.prune = isInline v := by
  cases v <;> rfl

/-- What stands in a list on one line has no members. -/
theorem prune_of_isInline {v : Json} (h : isInline v = true) : v.prune = v := by
  cases v with
  | array items => cases h
  | object members => cases h
  | _ => rfl

theorem all_isInline_prune (items : List Json) :
    (items.map prune).all isInline = items.all isInline := by
  rw [List.all_map]
  exact congrArg (List.all items) (funext isInline_prune)

/-- Members and their pruning have nothing but nulls alike. -/
theorem allNull_pruneMembers (members : List (String × Json)) :
    allNull (pruneMembers members) = allNull members := by
  rw [Bool.eq_iff_iff, allNull, allNull, List.all_eq_true, List.all_eq_true, pruneMembers_eq]
  constructor
  · intro hpruned m hm
    cases hnull : m.2.isNull with
    | true => rfl
    | false =>
        have hkept : m ∈ members.filter fun m => !m.2.isNull :=
          List.mem_filter.mpr ⟨hm, by rw [hnull]; rfl⟩
        have hpruned := hpruned (m.1, m.2.prune) (List.mem_map_of_mem hkept)
        rw [isNull_prune, hnull] at hpruned
        cases hpruned
  · intro hnull m hm
    obtain ⟨m', hm', rfl⟩ := List.mem_map.mp hm
    exact (isNull_prune m'.2).trans (hnull m' (List.mem_filter.mp hm').1)

theorem flowValues_of_isNull {v : Json} (h : v.isNull = true) : v.flowValues = [] := by
  rw [eq_null_of_isNull h]
  rfl

/-- No value is written as JSON where all members are null. -/
theorem flowMembers_of_allNull {members : List (String × Json)} (h : allNull members = true) :
    flowMembers members = [] := by
  rw [flowMembers_eq, List.flatMap_eq_nil_iff]
  exact fun m hm => flowValues_of_isNull (List.all_eq_true.mp h m hm)

theorem memberOutlines_pruneMembers (members : List (String × Json)) :
    memberOutlines (pruneMembers members) =
      (members.filter fun m => !m.2.isNull).map fun m => (m.1, m.2.prune.outline) := by
  rw [memberOutlines_eq, pruneMembers_eq, List.filter_map, List.map_map, List.filter_filter]
  refine congrArg (List.map _) (List.filter_congr fun m _ => ?_)
  simp [isNull_prune]

/-- A value whose pruning has its outline exactly if the values in it that are
    written as JSON are pruned already. -/
structure Forgotten (v : Json) : Prop where
  atKey : v.prune.outline = v.outline ↔ ∀ w ∈ v.flowValues, w.prune = w
  atItem : v.prune.itemOutline = v.itemOutline ↔ ∀ w ∈ v.flowItem, w.prune = w

/-- A null leaves no line, whether it is pruned or not. -/
theorem memberOutlines_prune_iff {members : List (String × Json)}
    (h : ∀ m ∈ members, m.2.Forgotten) :
    memberOutlines (pruneMembers members) = memberOutlines members ↔
      ∀ w ∈ flowMembers members, w.prune = w := by
  rw [memberOutlines_pruneMembers, memberOutlines_eq, List.map_inj_left, flowMembers_eq]
  constructor
  · intro houtlines w hw
    obtain ⟨m, hm, hw⟩ := List.mem_flatMap.mp hw
    -- A null has no outline to compare, but neither is anything in it written as JSON.
    cases hnull : m.2.isNull with
    | true =>
        rw [flowValues_of_isNull hnull] at hw
        exact absurd hw List.not_mem_nil
    | false =>
        have houtline := houtlines m (List.mem_filter.mpr ⟨hm, by rw [hnull]; rfl⟩)
        exact (h m hm).atKey.mp (Prod.mk.inj houtline).2 w hw
  · intro hpruned m hm
    have hm := (List.mem_filter.mp hm).1
    rw [(h m hm).atKey.mpr fun w hw => hpruned w (List.mem_flatMap.mpr ⟨m, hm, hw⟩)]

theorem itemOutlines_prune_iff {items : List Json} (h : ∀ v ∈ items, v.Forgotten) :
    itemOutlines (pruneItems items) = itemOutlines items ↔ ∀ w ∈ flowItems items, w.prune = w := by
  rw [pruneItems_eq, itemOutlines_eq, itemOutlines_eq, List.map_map, List.map_inj_left,
    flowItems_eq]
  constructor
  · intro houtlines w hw
    obtain ⟨v, hv, hw⟩ := List.mem_flatMap.mp hw
    exact (h v hv).atItem.mp (houtlines v hv) w hw
  · intro hpruned v hv
    exact (h v hv).atItem.mpr fun w hw => hpruned w (List.mem_flatMap.mpr ⟨v, hv, hw⟩)

theorem forgotten_array {items : List Json} (h : ∀ v ∈ items, v.Forgotten) :
    (array items).Forgotten := by
  constructor
  · rw [prune, outline, outline, flowValues, pruneItems_eq, all_isInline_prune]
    split
    · -- On one line there are no members that could be pruned.
      rename_i hinline
      have hsame : items.map prune = items :=
        (List.map_congr_left fun v hv => prune_of_isInline (List.all_eq_true.mp hinline v hv)).trans
          (List.map_id _)
      simp [hsame]
    · rw [Outline.items.injEq, ← pruneItems_eq, itemOutlines_prune_iff h]
  · -- A list in a list is written as JSON as a whole, so its text has to be that of the pruning.
    rw [flowItem, List.forall_mem_singleton, prune, itemOutline, itemOutline]
    exact ⟨line_compact_injective, fun heq => by rw [heq]⟩

theorem forgotten_object {members : List (String × Json)} (h : ∀ m ∈ members, m.2.Forgotten) :
    (object members).Forgotten := by
  constructor
  · rw [prune, outline, outline, flowValues, allNull_pruneMembers]
    split
    · -- At a key an object with nothing to tell is written as an empty one.
      rename_i hnull
      simp [flowMembers_of_allNull hnull]
    · rw [Outline.fields.injEq, memberOutlines_prune_iff h]
  · rw [prune, itemOutline, itemOutline, flowItem, allNull_pruneMembers]
    split
    · -- As an item it is written as JSON, with its nulls.
      rw [List.forall_mem_singleton, prune]
      exact ⟨line_compact_injective, fun heq => by rw [heq]⟩
    · rw [Outline.fields.injEq, memberOutlines_prune_iff h]

theorem forgotten (v : Json) : v.Forgotten :=
  v.induction
    (fun v hv => by
      cases v with
      | text s => cases hv
      | array items => cases hv
      | object members => cases hv
      | _ => constructor <;> simp [prune, flowValues, flowItem])
    (fun s => by constructor <;> simp [prune, flowValues, flowItem])
    (fun _ => forgotten_array) (fun _ => forgotten_object)

end Json

/-- Pruning keeps the order of the keys. -/
theorem Entries.Sorted.pruneMembers {members : List (String × Json)} (h : Entries.Sorted members) :
    Entries.Sorted (Json.pruneMembers members) := by
  rw [Json.pruneMembers_eq]
  exact List.pairwise_map.mpr (h.filter _)

/-- Parameters without those that are null, at every depth. -/
def StringMap.pruned (m : StringMap Json) : StringMap Json :=
  ⟨Json.pruneMembers m.entries, m.sorted.pruneMembers⟩

namespace Role

/-- A role without parameters that are null, at every depth. -/
def pruned (r : Role) : Role := { r with parameters := r.parameters.pruned }

/-- The values that are written as JSON, in the parameters of a role. -/
def flowValues (r : Role) : List Json := Json.flowMembers r.parameters.entries

end Role

namespace StateField

/-- A field whose default has no members that are null. A default that is null is
    none at all. -/
def pruned (f : StateField) : StateField :=
  { f with default := (f.default.filter fun v => !v.isNull).map Json.prune }

/-- The values that are written as JSON, in the default of a field. -/
def flowValues (f : StateField) : List Json := (f.default.getD .null).flowValues

end StateField

namespace StateSchema

/-- A schema whose defaults have no members that are null. -/
def pruned (s : StateSchema) : StateSchema :=
  ⟨s.metaFields.map StateField.pruned, s.publicFields.map StateField.pruned,
    s.privateFields.map StateField.pruned⟩

theorem fields_pruned (s : StateSchema) (n : StateNamespace) :
    s.pruned.fields n = (s.fields n).map StateField.pruned := by
  cases n <;> rfl

end StateSchema

namespace Project

/-- A project without its members that are null: in the parameters of its roles
    and in the defaults of its state, at every depth. -/
def pruned (p : Project) : Project :=
  { p with roles := p.roles.map Role.pruned, state := p.state.pruned }

/-- The values of a project that are written as JSON. -/
def flowValues (p : Project) : List Json :=
  p.roles.flatMap Role.flowValues ++
    StateNamespace.all.flatMap fun n => (p.state.fields n).flatMap StateField.flowValues

end Project

/-- A value that is written as JSON stands in a parameter or in a default. -/
theorem Project.exists_mem_flowValues (p : Project) {P : Json → Prop} :
    (∃ w ∈ p.flowValues, P w) ↔ (∃ r ∈ p.roles, ∃ w ∈ r.flowValues, P w) ∨
      ∃ n ∈ StateNamespace.all, ∃ f ∈ p.state.fields n, ∃ w ∈ f.flowValues, P w := by
  simp only [flowValues, List.mem_append, List.mem_flatMap]
  constructor
  · rintro ⟨w, ⟨r, hr, hw⟩ | ⟨n, hn, f, hf, hw⟩, hP⟩
    · exact .inl ⟨r, hr, w, hw, hP⟩
    · exact .inr ⟨n, hn, f, hf, w, hw, hP⟩
  · rintro (⟨r, hr, w, hw, hP⟩ | ⟨n, hn, f, hf, w, hw, hP⟩)
    · exact ⟨w, .inl ⟨r, hr, hw⟩, hP⟩
    · exact ⟨w, .inr ⟨n, hn, f, hf, hw⟩, hP⟩

theorem present_roleRows_pruned_iff (r : Role) :
    present (roleRows r.pruned) = present (roleRows r) ↔ ∀ w ∈ r.flowValues, w.prune = w := by
  rw [Role.flowValues, ← Json.memberOutlines_prune_iff fun m _ => m.2.forgotten]
  constructor
  · intro h
    -- The rows have the same keys on both sides, and all but the parameters agree anyway.
    have hrows := present_injective h rfl (by simp [roleRows])
    simp only [roleRows, Role.pruned, StringMap.pruned, List.cons.injEq, Prod.mk.injEq, true_and,
      and_true] at hrows
    exact fields?_injective hrows.1
  · intro h
    rw [roleRows, roleRows, Role.pruned, StringMap.pruned, h]

/-- A default that is left out counts as null. -/
theorem StateField.getD_default_pruned (f : StateField) :
    f.pruned.default.getD .null = (f.default.getD .null).prune := by
  obtain ⟨name, type, default⟩ := f
  cases default with
  | none => rfl
  | some v => cases v <;> rfl

theorem present_stateFieldRows_pruned_iff (f : StateField) :
    present (stateFieldRows f.pruned) = present (stateFieldRows f) ↔
      ∀ w ∈ f.flowValues, w.prune = w := by
  have hrows : stateFieldRows f.pruned = [("name", some (.line (quote f.name))),
      ("type", some (.line (quote f.type))),
      ("default", if (f.default.getD .null).isNull then none
        else some (f.default.getD .null).prune.outline)] := by
    rw [stateFieldRows, StateField.getD_default_pruned, Json.isNull_prune]
    rfl
  rw [StateField.flowValues, ← (f.default.getD .null).forgotten.atKey]
  cases hnull : (f.default.getD .null).isNull with
  | true =>
      rw [Json.eq_null_of_isNull hnull]
      exact ⟨fun _ => rfl, fun _ => by rw [hrows, stateFieldRows, hnull]; rfl⟩
  | false =>
      rw [hrows, stateFieldRows, hnull, if_neg Bool.false_ne_true, if_neg Bool.false_ne_true]
      constructor
      · intro h
        have hlast := present_injective h rfl (by simp)
        simp only [List.cons.injEq, Prod.mk.injEq, true_and, and_true, Option.some.injEq] at hlast
        exact hlast
      · intro h
        rw [h]

/-- Items are the same if each of them is. -/
theorem items?_map_eq_iff {α : Type} (rows : α → List (String × Option Outline)) (change : α → α)
    (xs : List α) :
    (items? ((xs.map change).map fun x => .fields (present (rows x))) =
      items? (xs.map fun x => .fields (present (rows x)))) ↔
    ∀ x ∈ xs, present (rows (change x)) = present (rows x) := by
  constructor
  · intro h
    have hitems := items?_injective h
    rw [List.map_map, List.map_inj_left] at hitems
    exact fun x hx => Outline.fields.inj (hitems x hx)
  · intro h
    rw [List.map_map]
    exact congrArg items? (List.map_congr_left fun x hx => congrArg Outline.fields (h x hx))

theorem present_stateRows_pruned_iff (s : StateSchema) :
    present (stateRows s.pruned) = present (stateRows s) ↔
      ∀ n ∈ StateNamespace.all, ∀ f ∈ s.fields n, ∀ w ∈ f.flowValues, w.prune = w := by
  have hkeys : ∀ s : StateSchema, (stateRows s).map Prod.fst =
      StateNamespace.all.map StateNamespace.sectionKey := fun s => by
    rw [stateRows, List.map_map]
    rfl
  have hspace : ∀ n,
      (items? ((s.pruned.fields n).map fun f => .fields (present (stateFieldRows f))) =
        items? ((s.fields n).map fun f => .fields (present (stateFieldRows f)))) ↔
        ∀ f ∈ s.fields n, ∀ w ∈ f.flowValues, w.prune = w := by
    intro n
    rw [s.fields_pruned, items?_map_eq_iff]
    exact forall₂_congr fun f _ => present_stateFieldRows_pruned_iff f
  constructor
  · intro h n hn
    have hrows := present_injective h ((hkeys _).trans (hkeys s).symm) (by rw [hkeys]; decide)
    exact (hspace n).mp (Prod.mk.inj (List.map_inj_left.mp hrows n hn)).2
  · intro h
    refine congrArg present (List.map_congr_left fun n hn => ?_)
    rw [(hspace n).mpr (h n hn)]

namespace Project

/-- A project and its pruning have one table exactly if the values that are
    written as JSON are pruned already. -/
theorem rows_pruned_iff (p : Project) (server : Server) (agents : List UInt32) :
    p.pruned.rows server agents = p.rows server agents ↔ ∀ w ∈ p.flowValues, w.prune = w := by
  have hroles := items?_map_eq_iff roleRows Role.pruned p.roles
  simp only [present_roleRows_pruned_iff] at hroles
  have hstate : fields? (present (stateRows p.state.pruned)) =
      fields? (present (stateRows p.state)) ↔
      ∀ n ∈ StateNamespace.all, ∀ f ∈ p.state.fields n, ∀ w ∈ f.flowValues, w.prune = w :=
    ⟨fun h => (present_stateRows_pruned_iff _).mp (fields?_injective h),
      fun h => by rw [(present_stateRows_pruned_iff _).mpr h]⟩
  simp only [rows, pruned, List.cons.injEq, Prod.mk.injEq, true_and, and_true, hroles, hstate,
    flowValues, List.forall_mem_append, List.forall_mem_flatMap]
  exact and_iff_right rfl

end Project

/-- A project and its pruning have one text exactly if no value that is written as
    JSON has a member that is null. Everywhere else such members leave no trace. -/
theorem compile_pruned_iff (p : Project) (server : Server) (text : String)
    (h : p.compile server = .ok text) :
    p.pruned.compile server = .ok text ↔ ∀ w ∈ p.flowValues, w.prune = w := by
  obtain ⟨agents, hpool, rfl⟩ := Project.compile_eq_ok_iff.mp h
  have hcounts : pool (p.pruned.roles.map Role.count) = .ok agents := by
    rw [← hpool, Project.pruned, List.map_map]
    rfl
  -- The agents are numbered by the counts, so both texts are those of tables for the same agents.
  rw [← p.rows_pruned_iff server agents]
  constructor
  · intro hpruned
    obtain ⟨agents', hpool', htext⟩ := Project.compile_eq_ok_iff.mp hpruned
    obtain rfl : agents = agents' := Except.ok.inj (hcounts.symm.trans hpool')
    exact (Project.rows_injective htext).symm
  · intro hrows
    refine Project.compile_eq_ok_iff.mpr ⟨agents, hcounts, ?_⟩
    rw [Project.laidOut_eq, Project.laidOut_eq, hrows]

/-- A project with nulls at a key and in an item, and with a list in a list. -/
def Project.gappy : Project where
  name := "a"
  roles := [{
    id := 1
    name := "r"
    parameters := .ofList [("seed", .null),
      ("stop", .array [.object [("at", .null), ("k", .text "x")], .array [.object [], .null]])] }]
  state := { publicFields := [{ name := "round", type := "int", default := some .null }] }

/-- A project with an item that has nothing but a null. -/
def Project.hollow : Project where
  name := "a"
  roles := [{
    id := 1
    name := "r"
    parameters := .ofList [("stop", .array [.object [("at", .null)]])] }]

/-- Nulls at a key and in the fields of an item leave no trace, but a null in what
    is written as JSON does. -/
theorem compile_pruned_hollow :
    (∃ text, Project.gappy.compile {} = .ok text ∧ Project.gappy.pruned.compile {} = .ok text) ∧
      Project.hollow.validate = .ok Project.hollow ∧
      ∃ text, Project.hollow.compile {} = .ok text ∧
        Project.hollow.pruned.compile {} ≠ .ok text := by
  have hgappy : ∀ w ∈ Project.gappy.flowValues, w.prune = w := fun w hw => by
    obtain rfl := List.mem_singleton.mp hw
    rfl
  have hhollow : ¬∀ w ∈ Project.hollow.flowValues, w.prune = w := fun h =>
    nomatch h (.object [("at", .null)]) List.mem_cons_self
  exact ⟨⟨_, rfl, (compile_pruned_iff Project.gappy {} _ rfl).mpr hgappy⟩, rfl,
    _, rfl, mt (compile_pruned_iff Project.hollow {} _ rfl).mp hhollow⟩

end SimStudio
