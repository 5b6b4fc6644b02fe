/-!
# Maps with Text Keys

Finite maps from text to values, kept as a list in ascending order of the
keys. The order is that of code points, so it does not depend on how a map was
built: two maps with the same bindings are the same list. Prompt slots,
model parameters and the members of a JSON object are all kept this way.

`Entries.put` works on bare lists, because the members of a JSON object stand
inside an inductive type where no proof can be carried along. `StringMap`
packs such a list with the proof that it is sorted.

## Main definitions

* `Entries.put`: Bind a key in a sorted list, replacing an older binding.
* `Entries.get?`: The value bound to a key.
* `Entries.Sorted`: The keys ascend strictly.
* `StringMap`: A sorted list of bindings.

## Theorems

* `Entries.put_sorted`: Binding a key keeps the list sorted.
* `Entries.get?_put_self`, `Entries.get?_put_ne`: What a binding changes.
* `Entries.Sorted.eq_of_get?`: A sorted list is known from the values of its keys.
* `StringMap.get?_insert`: The same for maps.
* `StringMap.ext`: A map is its list of bindings.
* `StringMap.ext_get?`: A map is known from what it binds.
* `StringMap.insert_insert`, `StringMap.insert_comm`: Bindings one after the other.
-/

namespace SimStudio

namespace Entries

variable {α : Type}

/-- Bind `k` to `v`. In a sorted list the new binding takes its place by key
    order, and a binding of the same key is replaced. -/
def put (k : String) (v : α) : List (String × α) → List (String × α)
  | [] => [(k, v)]
  | (k', v') :: rest =>
      if k < k' then (k, v) :: (k', v') :: rest
      else if k = k' then (k, v) :: rest
      else (k', v') :: put k v rest

/-- The value of the first binding of `k`. -/
def get? (k : String) : List (String × α) → Option α
  | [] => none
  | (k', v') :: rest => if k = k' then some v' else get? k rest

/-- The keys of the list ascend strictly. -/
def Sorted (entries : List (String × α)) : Prop :=
  entries.Pairwise (fun a b => a.1 < b.1)

instance (entries : List (String × α)) : Decidable (Sorted entries) :=
  inferInstanceAs (Decidable (entries.Pairwise (fun a b => a.1 < b.1)))

/-- Two different keys are ordered one way or the other. -/
theorem key_lt_of_not_lt {a b : String} (h : ¬a < b) (hne : a ≠ b) : b < a := by
  rcases Classical.em (b < a) with hb | hb
  · exact hb
  · exact absurd (String.le_antisymm (String.not_lt.mp hb) (String.not_lt.mp h)) hne

/-- A binding adds no key but its own. -/
theorem mem_put_key {k : String} {v : α} {entries : List (String × α)} {e : String × α}
    (h : e ∈ put k v entries) : e.1 = k ∨ ∃ e' ∈ entries, e'.1 = e.1 := by
  induction entries with
  | nil =>
      simp only [put, List.mem_singleton] at h
      exact .inl (by rw [h])
  | cons d rest ih =>
      obtain ⟨k', v'⟩ := d
      simp only [put] at h
      split at h
      · rcases List.mem_cons.mp h with rfl | h
        · exact .inl rfl
        · exact .inr ⟨e, h, rfl⟩
      · split at h
        · rcases List.mem_cons.mp h with rfl | h
          · exact .inl rfl
          · exact .inr ⟨e, List.mem_cons_of_mem _ h, rfl⟩
        · rcases List.mem_cons.mp h with rfl | h
          · exact .inr ⟨_, List.mem_cons_self, rfl⟩
          · rcases ih h with hk | ⟨e', he', hk⟩
            · exact .inl hk
            · exact .inr ⟨e', List.mem_cons_of_mem _ he', hk⟩

theorem put_sorted (k : String) (v : α) {entries : List (String × α)}
    (h : Sorted entries) : Sorted (put k v entries) := by
  induction entries with
  | nil => simp [put, Sorted]
  | cons d rest ih =>
      obtain ⟨k', v'⟩ := d
      simp only [Sorted, List.pairwise_cons] at h
      obtain ⟨hhead, htail⟩ := h
      simp only [put]
      split
      · rename_i hlt
        refine List.pairwise_cons.mpr ⟨fun e he => ?_, List.pairwise_cons.mpr ⟨hhead, htail⟩⟩
        rcases List.mem_cons.mp he with rfl | he
        · exact hlt
        · exact String.lt_trans hlt (hhead e he)
      · rename_i hlt
        split
        · rename_i heq
          subst heq
          exact List.pairwise_cons.mpr ⟨hhead, htail⟩
        · rename_i hne
          refine List.pairwise_cons.mpr ⟨fun e he => ?_, ih htail⟩
          rcases mem_put_key he with hk | ⟨e', he', hk⟩
          · rw [hk]
            exact key_lt_of_not_lt hlt hne
          · rw [← hk]
            exact hhead e' he'

theorem get?_put_self (k : String) (v : α) (entries : List (String × α)) :
    get? k (put k v entries) = some v := by
  induction entries with
  | nil => simp [put, get?]
  | cons d rest ih =>
      obtain ⟨k', v'⟩ := d
      simp only [put]
      split
      · simp [get?]
      · split
        · simp [get?]
        · rename_i hne
          simp [get?, hne, ih]

theorem get?_put_ne {k k' : String} (v : α) (entries : List (String × α)) (h : k' ≠ k) :
    get? k' (put k v entries) = get? k' entries := by
  induction entries with
  | nil => simp [put, get?, h]
  | cons d rest ih =>
      obtain ⟨k'', v''⟩ := d
      simp only [put]
      split
      · simp [get?, h]
      · split
        · rename_i heq
          subst heq
          simp [get?, h]
        · simp [get?, ih]

/-- No key is bound that comes before all others. -/
theorem get?_eq_none {k : String} {entries : List (String × α)} (h : ∀ e ∈ entries, k < e.1) :
    get? k entries = none := by
  induction entries with
  | nil => rfl
  | cons d rest ih =>
      have hne : k ≠ d.1 := fun heq => String.lt_irrefl _ (heq ▸ h d List.mem_cons_self)
      rw [get?, if_neg hne]
      exact ih fun e he => h e (List.mem_cons_of_mem _ he)

/-- The first key of a sorted list is not bound by one whose keys come later. -/
theorem Sorted.not_lt_of_get? {d e : String × α} {ds es : List (String × α)}
    (h : Sorted (e :: es)) (hget : ∀ k, get? k (d :: ds) = get? k (e :: es)) : ¬d.1 < e.1 := by
  intro hlt
  have hbound : get? d.1 (d :: ds) = some d.2 := if_pos rfl
  have hnone : get? d.1 (e :: es) = none := by
    refine get?_eq_none fun e' he' => ?_
    rcases List.mem_cons.mp he' with rfl | he'
    · exact hlt
    · exact String.lt_trans hlt ((List.pairwise_cons.mp h).1 e' he')
  rw [hget, hnone] at hbound
  cases hbound

/-- A sorted list is known from the values of its keys. -/
theorem Sorted.eq_of_get? {ds es : List (String × α)} (hds : Sorted ds) (hes : Sorted es)
    (hget : ∀ k, get? k ds = get? k es) : ds = es := by
  -- Neither list can begin with a key before the first one of the other.
  induction ds generalizing es with
  | nil =>
      cases es with
      | nil => rfl
      | cons e es => simpa [get?] using hget e.1
  | cons d ds ih =>
      cases es with
      | nil => simpa [get?] using hget d.1
      | cons e es =>
          have hkey : d.1 = e.1 := Classical.byContradiction fun hne =>
            hds.not_lt_of_get? (fun k => (hget k).symm)
              (key_lt_of_not_lt (hes.not_lt_of_get? hget) hne)
          have hvalue : d.2 = e.2 := by
            have hfirst := hget d.1
            rw [get?, get?, if_pos rfl, if_pos hkey] at hfirst
            exact Option.some.inj hfirst
          rw [Prod.ext hkey hvalue]
          have hrest : ds = es := by
            refine ih (List.pairwise_cons.mp hds).2 (List.pairwise_cons.mp hes).2 fun k => ?_
            by_cases hk : k = d.1
            · rw [hk, get?_eq_none (List.pairwise_cons.mp hds).1,
                hkey, get?_eq_none (List.pairwise_cons.mp hes).1]
            · have hlater := hget k
              rw [get?, get?, if_neg hk, if_neg (hkey ▸ hk)] at hlater
              exact hlater
          rw [hrest]

end Entries

/-- A finite map from text to values, sorted by key. -/
structure StringMap (α : Type) where
  /-- The bindings in ascending order of their keys. -/
  entries : List (String × α)
  sorted : Entries.Sorted entries

namespace StringMap

variable {α : Type}

theorem ext {m n : StringMap α} (h : m.entries = n.entries) : m = n := by
  cases m
  cases n
  cases h
  rfl

instance [DecidableEq α] : DecidableEq (StringMap α) := fun m n =>
  decidable_of_iff (m.entries = n.entries) ⟨ext, fun h => h ▸ rfl⟩

/-- The map without bindings. -/
def empty : StringMap α := ⟨[], .nil⟩

instance : EmptyCollection (StringMap α) := ⟨empty⟩

instance : Inhabited (StringMap α) := ⟨empty⟩

/-- Bind a key, replacing its older binding. -/
def insert (m : StringMap α) (k : String) (v : α) : StringMap α :=
  ⟨Entries.put k v m.entries, Entries.put_sorted k v m.sorted⟩

/-- The value bound to a key. -/
def get? (m : StringMap α) (k : String) : Option α := Entries.get? k m.entries

/-- The map of a list of bindings, of which the last for a key counts. -/
def ofList (bindings : List (String × α)) : StringMap α :=
  bindings.foldl (fun m (k, v) => m.insert k v) empty

/-- The keys in ascending order. -/
def keys (m : StringMap α) : List String := m.entries.map Prod.fst

theorem get?_insert (m : StringMap α) (k k' : String) (v : α) :
    (m.insert k v).get? k' = if k' = k then some v else m.get? k' := by
  split
  · rename_i h
    subst h
    exact Entries.get?_put_self k' v m.entries
  · rename_i h
    exact Entries.get?_put_ne v m.entries h

/-- A map is known from what it binds. -/
theorem ext_get? {m n : StringMap α} (h : ∀ k, m.get? k = n.get? k) : m = n :=
  ext (m.sorted.eq_of_get? n.sorted h)

/-- Of two bindings of a key the later one counts. -/
theorem insert_insert (m : StringMap α) (k : String) (v w : α) :
    (m.insert k v).insert k w = m.insert k w := by
  refine ext_get? fun k' => ?_
  rw [get?_insert, get?_insert, get?_insert]
  split
  · rfl
  · rfl

/-- Bindings of two keys may come in either order. -/
theorem insert_comm (m : StringMap α) {k l : String} (v w : α) (h : k ≠ l) :
    (m.insert k v).insert l w = (m.insert l w).insert k v := by
  refine ext_get? fun k' => ?_
  rw [get?_insert, get?_insert, get?_insert, get?_insert]
  by_cases hk : k' = k
  · rw [if_neg (hk ▸ h), if_pos hk, if_pos hk]
  · rw [if_neg hk, if_neg hk]

end StringMap

end SimStudio
