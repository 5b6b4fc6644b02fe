import SimStudio.Json
import SimStudio.Yaml.Tree

/-!
# Members in Order

A map is rebuilt from its own entries, and so is an object whose members are in
order. How deeply a value is nested is what a reader goes into it.

## Main definitions

* `Json.nesting`: How many arrays and objects stand in one another.
* `Json.FitsIn`: A value for a place that goes so deep.

## Theorems

* `StringMap.ofList_entries`: A map is rebuilt from its entries.
* `StringMap.mem_of_mem_ofList`: A map has no entries but those it is made of.
* `Json.ofMembers_of_sorted`: An object is rebuilt from its members.
-/

namespace SimStudio

namespace Entries

variable {α : Type}

theorem mem_of_mem_put {k : String} {v : α} {entries : List (String × α)} {e : String × α}
    (h : e ∈ put k v entries) : e = (k, v) ∨ e ∈ entries := by
  induction entries with
  | nil => exact .inl (List.mem_singleton.mp h)
  | cons d rest ih =>
      rw [put] at h
      split at h
      · exact List.mem_cons.mp h
      · split at h
        · exact (List.mem_cons.mp h).imp_right (List.mem_cons_of_mem _)
        · rcases List.mem_cons.mp h with rfl | h
          · exact .inr List.mem_cons_self
          · exact (ih h).imp_right (List.mem_cons_of_mem _)

theorem put_eq_append {k : String} (v : α) {entries : List (String × α)}
    (h : ∀ e ∈ entries, e.1 < k) : put k v entries = entries ++ [(k, v)] := by
  induction entries with
  | nil => rfl
  | cons d rest ih =>
      have hlt : d.1 < k := h d List.mem_cons_self
      have hne : k ≠ d.1 := by
        rintro rfl
        exact String.lt_irrefl _ hlt
      rw [put, if_neg (String.lt_asymm hlt), if_neg hne,
        ih fun e he => h e (List.mem_cons_of_mem _ he), List.cons_append]

end Entries

namespace StringMap

variable {α : Type}

-- Each entry comes behind all that have been bound before it.
theorem foldl_insert_entries {entries : List (String × α)} {m : StringMap α}
    (h : Entries.Sorted (m.entries ++ entries)) :
    (entries.foldl (fun m e => m.insert e.1 e.2) m).entries = m.entries ++ entries := by
  induction entries generalizing m with
  | nil => exact (List.append_nil _).symm
  | cons e entries ih =>
      have hput : (m.insert e.1 e.2).entries = m.entries ++ [e] :=
        Entries.put_eq_append e.2 fun d hd =>
          (List.pairwise_append.mp h).2.2 d hd e List.mem_cons_self
      rw [List.foldl_cons, ih, hput, List.append_assoc, List.singleton_append]
      rw [hput, List.append_assoc, List.singleton_append]
      exact h

/-- A map is rebuilt from its entries. -/
theorem ofList_entries (m : StringMap α) : ofList m.entries = m :=
  ext (foldl_insert_entries m.sorted)

theorem mem_of_mem_ofList {bindings : List (String × α)} {e : String × α}
    (h : e ∈ (ofList bindings).entries) : e ∈ bindings := by
  have hfold : ∀ (bindings : List (String × α)) (m : StringMap α),
      e ∈ (bindings.foldl (fun m e => m.insert e.1 e.2) m).entries →
        e ∈ m.entries ∨ e ∈ bindings := by
    intro bindings
    induction bindings with
    | nil => exact fun m he => .inl he
    | cons d bindings ih =>
        intro m he
        rcases ih _ he with he | he
        · rcases Entries.mem_of_mem_put he with rfl | he
          · exact .inr List.mem_cons_self
          · exact .inl he
        · exact .inr (List.mem_cons_of_mem _ he)
  rcases hfold bindings empty h with he | he
  · exact absurd he List.not_mem_nil
  · exact he

end StringMap

namespace Json

/-- An object is rebuilt from its members. -/
theorem ofMembers_of_sorted {members : List (String × Json)} (h : Entries.Sorted members) :
    ofMembers members = object members :=
  congrArg object (congrArg StringMap.entries (StringMap.ofList_entries ⟨members, h⟩))

mutual

/-- How many arrays and objects stand in one another. -/
def nesting : Json → Nat
  | array items => nestingOfItems items + 1
  | object members => nestingOfMembers members + 1
  | _ => 0

/-- How deeply the items of an array are nested. -/
def nestingOfItems : List Json → Nat
  | [] => 0
  | v :: rest => max (nesting v) (nestingOfItems rest)

/-- How deeply the members of an object are nested. -/
def nestingOfMembers : List (String × Json) → Nat
  | [] => 0
  | (_, v) :: rest => max (nesting v) (nestingOfMembers rest)

end

theorem nesting_array_le {items : List Json} {depth : Nat} :
    (array items).nesting ≤ depth + 1 ↔ ∀ v ∈ items, v.nesting ≤ depth := by
  rw [nesting, Nat.succ_le_succ_iff]
  induction items with
  | nil => simp [nestingOfItems]
  | cons v items ih => rw [nestingOfItems, Nat.max_le, ih, List.forall_mem_cons]

theorem nesting_object_le {members : List (String × Json)} {depth : Nat} :
    (object members).nesting ≤ depth + 1 ↔ ∀ m ∈ members, m.2.nesting ≤ depth := by
  rw [nesting, Nat.succ_le_succ_iff]
  induction members with
  | nil => simp [nestingOfMembers]
  | cons m members ih => rw [nestingOfMembers, Nat.max_le, ih, List.forall_mem_cons]

/-- A value as it is read at a place that goes so deep: with the members of
    objects in order, and nested no deeper. -/
structure FitsIn (depth : Nat) (v : Json) : Prop where
  ordered : v.Ordered
  nesting_le : v.nesting ≤ depth

theorem fitsIn_array {items : List Json} {depth : Nat} (h : ∀ v ∈ items, v.FitsIn depth) :
    (array items).FitsIn (depth + 1) :=
  ⟨.array fun v hv => (h v hv).ordered, nesting_array_le.mpr fun v hv => (h v hv).nesting_le⟩

theorem fitsIn_ofMembers {members : List (String × Json)} {depth : Nat}
    (h : ∀ m ∈ members, m.2.FitsIn depth) : (ofMembers members).FitsIn (depth + 1) := by
  have hmem : ∀ m ∈ (StringMap.ofList members).entries, m.2.FitsIn depth := fun m hm =>
    h m (StringMap.mem_of_mem_ofList hm)
  exact ⟨.object (StringMap.ofList members).sorted fun m hm => (hmem m hm).ordered,
    nesting_object_le.mpr fun m hm => (hmem m hm).nesting_le⟩

theorem toTree_ne_null {v : Json} (h : v.isNull = false) : v.toTree ≠ .null := by
  cases v with
  | null => cases h
  | number n => cases n <;> simp [toTree]
  | _ => simp [toTree]

theorem toTreeItems_eq_map (items : List Json) : toTreeItems items = items.map toTree := by
  induction items with
  | nil => rfl
  | cons v items ih => rw [toTreeItems, ih, List.map_cons]

theorem toTreeMembers_eq_map (members : List (String × Json)) :
    toTreeMembers members = members.map fun m => (m.1, m.2.toTree) := by
  induction members with
  | nil => rfl
  | cons m members ih => rw [toTreeMembers, ih, List.map_cons]

end Json

end SimStudio
