import SimStudio.Proofs.Json.Compact
import SimStudio.Proofs.Json.Members
import SimStudio.Json.Record
import SimStudio.Yaml.Record

/-!
# How Deep Readers Go

Every part of a place in a document has less depth left than the place itself,
and a value is nested no deeper than its place goes. This is one law on formats,
and both keep it: wherever a reader looks into a collection, it takes one from
the depth, and none is left to take where it ends.

## Main definitions

* `Reading.Ensures`: All that a reading can result in has a property.
* `Format.Bounded`: Each part of a place goes less deep than the place.

## Theorems

* `Reading.Ensures.bind`: Of a sequence, step by step.
* `Json.Place.bounded`, `Yaml.Place.bounded`: Both formats are bounded.
-/

namespace SimStudio

namespace Reading

variable {α β : Type} {P Q : α → Prop} {R : β → Prop}

/-- All that a reading can result in has a property. -/
def Ensures (read : Reading α) (P : α → Prop) : Prop :=
  ∀ budget x left, read budget = some (x, left) → P x

namespace Ensures

theorem trivial (read : Reading α) : Ensures read fun _ => True := fun _ _ _ _ => True.intro

theorem mono {read : Reading α} (h : Ensures read P) (hPQ : ∀ x, P x → Q x) : Ensures read Q :=
  fun budget x left hread => hPQ x (h budget x left hread)

theorem pure {x : α} (h : P x) : Ensures (Pure.pure x) P := by
  intro budget y left hread
  cases hread
  exact h

theorem failure : Ensures (Alternative.failure : Reading α) P := by
  intro budget x left hread
  cases hread

theorem ofOption {result : Option α} (h : ∀ x, result = some x → P x) :
    Ensures (Reading.ofOption result) P := by
  intro budget x left hread
  rw [Reading.ofOption, Option.map_eq_some_iff] at hread
  obtain ⟨y, hy, heq⟩ := hread
  exact (Prod.mk.inj heq).1 ▸ h y hy

theorem bind {read : Reading α} {next : α → Reading β} (h : Ensures read P)
    (hnext : ∀ x, P x → Ensures (next x) R) : Ensures (read >>= next) R := by
  intro budget y left hread
  obtain ⟨r, hr, hy⟩ := Option.bind_eq_some_iff.mp hread
  exact hnext r.1 (h budget r.1 r.2 hr) r.2 y left hy

/-- Of a part that does not matter nothing need be known. -/
theorem bind_any {read : Reading α} {next : α → Reading β} (hnext : ∀ x, Ensures (next x) R) :
    Ensures (read >>= next) R :=
  (trivial read).bind fun x _ => hnext x

theorem map {read : Reading α} {f : α → β} (h : Ensures read fun x => R (f x)) :
    Ensures (f <$> read) R := by
  rw [← bind_pure_comp]
  exact h.bind fun x hx => pure hx

theorem mapM {read : α → Reading β} {items : List α} (h : ∀ x ∈ items, Ensures (read x) R) :
    Ensures (items.mapM read) fun ys => ∀ y ∈ ys, R y := by
  induction items with
  | nil => exact pure fun y hy => absurd hy List.not_mem_nil
  | cons x items ih =>
      rw [List.mapM_cons]
      exact (h x List.mem_cons_self).bind fun y hy =>
        (ih fun z hz => h z (List.mem_cons_of_mem _ hz)).bind fun ys hys =>
          pure (List.forall_mem_cons.mpr ⟨hy, hys⟩)

end Ensures

end Reading

open Reading (Ensures)

-- ## Formats

variable {S : Type} [Format S]

/-- Each part of a place goes less deep than the place itself, and a value is not
    nested deeper than its place goes. -/
structure Format.Bounded (depth : S → Nat) : Prop where
  optional : ∀ p, Ensures (Format.optional p) fun found => ∀ q ∈ found, depth q ≤ depth p
  items : ∀ p, Ensures (Format.items p) fun places => ∀ q ∈ places, depth q < depth p
  members : ∀ p, Ensures (Format.members p) fun places => ∀ m ∈ places, depth m.2 < depth p
  fields : ∀ names p, Ensures (Format.fields names p) fun places => ∀ m ∈ places, depth m.2 < depth p
  value : ∀ p, Ensures (Format.value p) (Json.FitsIn (depth p))

/-- A selected field is a member. -/
theorem mem_of_select? {S : Type} {names : List String} {members known : List (String × S)}
    (h : Fields.select? names members = some known) {m : String × S} (hm : m ∈ known) :
    m ∈ members := by
  rw [Fields.select?] at h
  split at h
  · cases h
    exact List.mem_of_mem_filter hm
  · cases h

theorem forall_mem_of_mapM {α β : Type} {f : α → Option β} {P : β → Prop} {xs : List α}
    {ys : List β} (hf : ∀ x y, f x = some y → P y) (h : xs.mapM f = some ys) : ∀ y ∈ ys, P y := by
  induction xs generalizing ys with
  | nil =>
      cases h
      exact List.forall_mem_nil _
  | cons x xs ih =>
      simp only [List.mapM_cons, Option.bind_eq_bind, Option.bind_eq_some_iff, Option.pure_def,
        Option.some.injEq] at h
      obtain ⟨y, hy, ys, hys, rfl⟩ := h
      exact List.forall_mem_cons.mpr ⟨hf x y hy, ih hys⟩

namespace Json

theorem fitsIn_of_isWord {v : Json} (h : v.isWord = true) (depth : Nat) : v.FitsIn depth := by
  cases v with
  | null => exact ⟨.null, Nat.zero_le _⟩
  | bool b => exact ⟨.bool b, Nat.zero_le _⟩
  | number n => exact ⟨.number n, Nat.zero_le _⟩
  | _ => cases h

namespace Written

section Parts

variable {depth : Nat}
  (hparts : ∀ {w : Written} {v : Json}, w.toJson? depth = some v → v.FitsIn depth)

include hparts in
theorem fitsIn_of_toJsonItems? {items : List Written} {vs : List Json}
    (h : toJsonItems? depth items = some vs) : ∀ v ∈ vs, v.FitsIn depth := by
  induction items generalizing vs with
  | nil =>
      cases h
      exact List.forall_mem_nil _
  | cons w items ih =>
      simp only [toJsonItems?, Option.bind_eq_bind, Option.bind_eq_some_iff, Option.pure_def,
        Option.some.injEq] at h
      obtain ⟨v, hv, vs, hvs, rfl⟩ := h
      exact List.forall_mem_cons.mpr ⟨hparts hv, ih hvs⟩

include hparts in
theorem fitsIn_of_toJsonMembers? {members : List (List Piece × Written)} {ms : List (String × Json)}
    (h : toJsonMembers? depth members = some ms) : ∀ m ∈ ms, m.2.FitsIn depth := by
  induction members generalizing ms with
  | nil =>
      cases h
      exact List.forall_mem_nil _
  | cons m members ih =>
      simp only [toJsonMembers?, Option.bind_eq_bind, Option.bind_eq_some_iff, Option.pure_def,
        Option.some.injEq] at h
      obtain ⟨key, -, v, hv, ms, hms, rfl⟩ := h
      exact List.forall_mem_cons.mpr ⟨hparts hv, ih hms⟩

end Parts

-- Induction on the depth: a list is nested no deeper than what is in it.
theorem fitsIn_of_toJson? {depth : Nat} {w : Written} {v : Json} (h : w.toJson? depth = some v) :
    v.FitsIn depth := by
  induction depth using Nat.strongRecOn generalizing w v with
  | ind depth ih =>
      cases w with
      | null => cases h; exact fitsIn_of_isWord rfl depth
      | bool b => cases h; exact fitsIn_of_isWord rfl depth
      | number n =>
          obtain ⟨n, -, rfl⟩ := Option.map_eq_some_iff.mp h
          exact fitsIn_of_isWord rfl depth
      | text pieces =>
          obtain ⟨s, -, rfl⟩ := Option.map_eq_some_iff.mp h
          exact ⟨.text s, Nat.zero_le depth⟩
      | array items =>
          cases depth with
          | zero => cases h
          | succ depth =>
              obtain ⟨vs, hvs, rfl⟩ := Option.map_eq_some_iff.mp h
              exact fitsIn_array (fitsIn_of_toJsonItems? (ih depth (Nat.lt_succ_self _)) hvs)
      | object members =>
          cases depth with
          | zero => cases h
          | succ depth =>
              obtain ⟨ms, hms, rfl⟩ := Option.map_eq_some_iff.mp h
              exact fitsIn_ofMembers (fitsIn_of_toJsonMembers? (ih depth (Nat.lt_succ_self _)) hms)

end Written

namespace Place

theorem depth_lt_of_items? {p : Place} {places : List Place} (h : p.items? = some places) :
    ∀ q ∈ places, q.depth < p.depth := by
  unfold items? at h
  split at h
  · split at h
    · cases h
    · cases h
      intro q hq
      obtain ⟨v, -, rfl⟩ := List.mem_map.mp hq
      exact Nat.sub_one_lt ‹_›
  · cases h

theorem depth_lt_of_members? {p : Place} {places : List (String × Place)}
    (h : p.members? = some places) : ∀ m ∈ places, m.2.depth < p.depth := by
  unfold members? at h
  split at h
  · split at h
    · cases h
    · refine forall_mem_of_mapM (fun x m hm => ?_) h
      obtain ⟨key, -, rfl⟩ := Option.map_eq_some_iff.mp hm
      exact Nat.sub_one_lt ‹_›
  · cases h

theorem depth_lt_of_fields? {names : List String} {p : Place} {places : List (String × Place)}
    (h : p.fields? names = some places) : ∀ m ∈ places, m.2.depth < p.depth := by
  unfold fields? at h
  split at h
  · obtain ⟨members, hmembers, hselect⟩ := Option.bind_eq_some_iff.mp h
    exact fun m hm => depth_lt_of_members? hmembers m (mem_of_select? hselect hm)
  · obtain ⟨items, hitems, hzip⟩ := Option.bind_eq_some_iff.mp h
    split at hzip
    · cases hzip
      intro m hm
      exact depth_lt_of_items? hitems m.2 (List.of_mem_zip hm).2
    · cases hzip
  · cases h

/-- No part of a place in a JSON text goes as deep as the place. -/
theorem bounded : Format.Bounded Place.depth where
  optional p := by
    refine .pure fun q hq => ?_
    split at hq
    · cases hq
    · cases hq
      exact Nat.le_refl _
  items _ := .ofOption fun _ h => depth_lt_of_items? h
  members _ := .ofOption fun _ h => depth_lt_of_members? h
  fields _ _ := .ofOption fun _ h => depth_lt_of_fields? h
  value _ := .ofOption fun _ h => Written.fitsIn_of_toJson? h

end Place

end Json

namespace Yaml

namespace Document

variable {d : Document}

theorem fitsIn_of_scalarJson? {props : Props Nat} {style : ScalarStyle} {text : String} {v : Json}
    (h : scalarJson? props style text = some v) (depth : Nat) : v.FitsIn depth := by
  obtain ⟨content, -, hv⟩ := Option.bind_eq_some_iff.mp h
  cases content with
  | null => cases hv; exact Json.fitsIn_of_isWord rfl depth
  | bool b => cases hv; exact Json.fitsIn_of_isWord rfl depth
  | int i =>
      obtain ⟨n, -, rfl⟩ := Option.map_eq_some_iff.mp hv
      exact Json.fitsIn_of_isWord rfl depth
  | float x => 
      cases hv
      cases x <;> exact Json.fitsIn_of_isWord rfl depth
  | text s => cases hv; exact ⟨.text s, Nat.zero_le depth⟩
  | list items => cases hv
  | map entries => cases hv

-- Induction on the depth: a part is read with less of it left.
theorem ensures_json (depth : Nat) (n : Node Nat) :
    Ensures (d.json depth n) (Json.FitsIn depth) := by
  induction depth generalizing n with
  | zero =>
      rw [json]
      refine .bind_any fun n => ?_
      cases n with
      | scalar props style text => exact .ofOption fun v hv => fitsIn_of_scalarJson? hv 0
      | _ => exact .failure
  | succ depth ih =>
      rw [json]
      refine .bind_any fun n => ?_
      cases n with
      | scalar props style text => exact .ofOption fun v hv => fitsIn_of_scalarJson? hv _
      | sequence props items =>
          by_cases htag : isOwnTag props.tag
          · simp only [htag, if_true]
            exact .failure
          · simp only [htag]
            exact .map ((Ensures.mapM fun n _ => ih n).mono fun vs hvs => Json.fitsIn_array hvs)
      | mapping props entries =>
          by_cases htag : isOwnTag props.tag
          · simp only [htag, if_true]
            exact .failure
          · simp only [htag]
            refine .bind (.mapM fun e _ => ?_) fun ms hms => .pure (Json.fitsIn_ofMembers hms)
            exact .bind_any fun key => (ih e.2).bind fun v hv => .pure hv
      | _ => exact .failure

end Document

namespace Place

theorem ensures_items (p : Place) :
    Ensures p.items fun places => ∀ q ∈ places, q.depth < p.depth := by
  refine .bind_any fun n => ?_
  split
  · split
    · exact .failure
    · refine .pure fun q hq => ?_
      obtain ⟨n, -, rfl⟩ := List.mem_map.mp hq
      exact Nat.sub_one_lt ‹_›
  · exact .pure (List.forall_mem_nil _)
  · exact .failure

theorem ensures_members (p : Place) :
    Ensures p.members fun places => ∀ m ∈ places, m.2.depth < p.depth := by
  refine .bind_any fun n => ?_
  split
  · split
    · exact .failure
    · refine .mapM fun e _ => .bind_any fun key => .pure ?_
      exact Nat.sub_one_lt ‹_›
  · exact .pure (List.forall_mem_nil _)
  · exact .failure

theorem ensures_optional (p : Place) :
    Ensures p.optional fun found => ∀ q ∈ found, q.depth ≤ p.depth := by
  have hsome : ∀ n, ∀ q ∈ some { p with node := some n }, q.depth ≤ p.depth := by
    rintro n q ⟨⟩
    exact Nat.le_refl _
  refine .bind_any fun n => ?_
  split
  · refine .bind_any fun nothing => ?_
    split
    · exact .pure fun q hq => absurd hq (by simp)
    · exact .pure (hsome _)
  · exact .pure (hsome _)

/-- No part of a place in a YAML text goes as deep as the place. -/
theorem bounded : Format.Bounded Place.depth where
  optional := ensures_optional
  items := ensures_items
  members := ensures_members
  fields _ p := (ensures_members p).bind fun _ hmembers =>
    .ofOption fun _ hknown m hm => hmembers m (mem_of_select? hknown hm)
  value _ := Document.ensures_json _ _

end Place

end Yaml

end SimStudio
