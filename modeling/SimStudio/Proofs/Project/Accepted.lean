import SimStudio.Proofs.Project.Rereading
import SimStudio.Proofs.Record.Depth

/-!
# Accepted Projects Read Back

Whatever the format of a document, a project that is accepted can be read from
its own text. How deep the values of a project stand follows from how its
records contain one another: a reader that begins with no more depth than the
reader of the text has, reads no value that stands too deep for that one.

What comes back is the project without the defaults that are null. A document
can lead to such a default, since a number that is none is read as null.

## Theorems

* `Project.ensures_read`: A project that is read has no values too deep.
* `Project.storable_of_ofText`: An accepted project can be read back.
* `Project.ofText_toYaml`: What comes back of it.
-/

namespace SimStudio

open Reading (Ensures)

variable {S : Type} [Format S]

-- ## Records

section Records

variable {α : Type} {depth : S → Nat} {limit : Nat}

omit [Format S] in
theorem Fields.ensures_orElse {fields : Fields S} {name : String} {read : S → Reading α}
    {absent : α} {P : α → Prop} (hfields : ∀ m ∈ fields.places, depth m.2 ≤ limit)
    (hread : ∀ q, depth q ≤ limit → Ensures (read q) P) (habsent : P absent) :
    Ensures (fields.orElse name read absent) P := by
  unfold orElse
  split
  · rename_i q hq
    obtain ⟨before, behind, heq, -⟩ := List.lookup_eq_some_iff.mp hq
    exact hread q (hfields (name, q) (heq ▸ List.mem_append_right _ List.mem_cons_self))
  · exact .pure habsent

variable (h : Format.Bounded depth)
include h

theorem Fields.ensures_read {names : List String} {p : S} (hp : depth p ≤ limit + 1) :
    Ensures (Fields.read names p) fun fields => ∀ m ∈ fields.places, depth m.2 ≤ limit :=
  .map ((h.fields names p).mono fun places hplaces m hm => by
    have hm := hplaces m hm
    omega)

theorem Fields.ensures_optional {fields : Fields S} {name : String} {read : S → Reading α}
    {P : α → Prop} (hfields : ∀ m ∈ fields.places, depth m.2 ≤ limit)
    (hread : ∀ q, depth q ≤ limit → Ensures (read q) P) :
    Ensures (fields.optional name read) fun found => ∀ v, found = some v → P v := by
  have habsent : ∀ v, (none : Option α) = some v → P v := fun v hv => absurd hv (by simp)
  refine ensures_orElse hfields (fun q hq => (h.optional q).bind fun found hfound => ?_) habsent
  cases found with
  | none => exact .pure habsent
  | some q' =>
      have hq' := hfound q' rfl
      refine .map ((hread q' (by omega)).mono fun v hv w hw => ?_)
      cases hw
      exact hv

theorem Format.ensures_list {p : S} {read : S → Reading α} {P : α → Prop}
    (hp : depth p ≤ limit + 1) (hread : ∀ q, depth q ≤ limit → Ensures (read q) P) :
    Ensures (Format.list read p) fun xs => ∀ x ∈ xs, P x :=
  (h.items p).bind fun places hplaces => .mapM fun q hq => hread q (by
    have hq := hplaces q hq
    omega)

theorem Format.ensures_map {p : S} {read : S → Reading α} {P : α → Prop}
    (hp : depth p ≤ limit + 1) (hread : ∀ q, depth q ≤ limit → Ensures (read q) P) :
    Ensures (Format.map read p) fun m => ∀ e ∈ m.entries, P e.2 := by
  refine (h.members p).bind fun places hplaces => ?_
  refine (Ensures.mapM (R := fun e => P e.2) fun m hm => ?_).bind fun entries hentries =>
    .pure fun e he => hentries e (StringMap.mem_of_mem_ofList he)
  have hm := hplaces m hm
  exact (hread m.2 (by omega)).bind fun v hv => .pure hv

theorem Format.ensures_value {q : S} (hq : depth q ≤ limit) :
    Ensures (Format.value q) (Json.FitsIn limit) :=
  (h.value q).mono fun _ hv => ⟨hv.ordered, Nat.le_trans hv.nesting_le hq⟩

theorem Role.ensures_read {p : S} (hp : depth p ≤ valueDepth + 2) :
    Ensures (Role.read p) Role.Storable := by
  refine (Fields.ensures_read h hp).bind fun fields hfields => ?_
  refine .bind_any fun id => .bind_any fun name => .bind_any fun model => ?_
  refine (Fields.ensures_orElse hfields (fun q hq => Format.ensures_map h hq fun q hq =>
    Format.ensures_value h hq) (List.forall_mem_nil _)).bind fun parameters hparameters => ?_
  exact .bind_any fun count => .bind_any fun prompts => .bind_any fun phases => .pure hparameters

theorem StateField.ensures_read {p : S} (hp : depth p ≤ valueDepth + 1) :
    Ensures (StateField.read p) StateField.Storable := by
  refine (Fields.ensures_read h hp).bind fun fields hfields => ?_
  refine .bind_any fun name => .bind_any fun type => ?_
  exact (Fields.ensures_optional h hfields fun q hq => Format.ensures_value h hq).bind
    fun default hdefault => .pure hdefault

theorem StateSchema.ensures_read {p : S} (hp : depth p ≤ valueDepth + 3) :
    Ensures (StateSchema.read p) fun s => ∀ n, ∀ f ∈ s.fields n, f.Storable := by
  have hspace : ∀ q, depth q ≤ valueDepth + 2 →
      Ensures (Format.list StateField.read q) fun fs => ∀ f ∈ fs, f.Storable := fun q hq =>
    Format.ensures_list h hq fun q hq => StateField.ensures_read h hq
  have hnone : ∀ f ∈ ([] : List StateField), f.Storable := List.forall_mem_nil _
  refine (Fields.ensures_read h hp).bind fun fields hfields => ?_
  refine (Fields.ensures_orElse hfields hspace hnone).bind fun metaFields hmeta => ?_
  refine (Fields.ensures_orElse hfields hspace hnone).bind fun publicFields hpublic => ?_
  refine (Fields.ensures_orElse hfields hspace hnone).bind fun privateFields hprivate => ?_
  refine .pure fun n => ?_
  cases n with
  | metaInfo => exact hmeta
  | publicInfo => exact hpublic
  | privateInfo => exact hprivate

/-- A project that is read has no values too deep. -/
theorem Project.ensures_read {p : S} (hp : depth p ≤ valueDepth + 4) :
    Ensures (Project.read p) fun p => (∀ r ∈ p.roles, r.Storable) ∧
      ∀ n, ∀ f ∈ p.state.fields n, f.Storable := by
  refine (Fields.ensures_read h hp).bind fun fields hfields => ?_
  refine .bind_any fun id => .bind_any fun createdAt => .bind_any fun name => ?_
  refine .bind_any fun description => .bind_any fun gameId => .bind_any fun partials => ?_
  refine (Fields.ensures_orElse hfields (fun q hq => Format.ensures_list h hq fun q hq =>
    Role.ensures_read h hq) (List.forall_mem_nil _)).bind fun roles hroles => ?_
  refine (Fields.ensures_orElse hfields (fun q hq => StateSchema.ensures_read h hq)
    fun n f hf => ?_).bind fun state hstate => ?_
  · cases n <;> exact absurd hf List.not_mem_nil
  · exact .bind_any fun manager => .bind_any fun logging => .pure ⟨hroles, hstate⟩

end Records

namespace Project

theorem validate_eq_ok {p q : Project} (h : p.validate = .ok q) : p = q ∧ q.violation? = none := by
  unfold validate at h
  split at h
  · cases h
  · rename_i hnone
    cases h
    exact ⟨rfl, hnone⟩

/-- A text is accepted in one of the formats, and what it describes keeps the rules. -/
theorem of_ofText {format : DocumentFormat} {text : String} {p : Project}
    (h : ofText format text = .ok p) :
    (ofJson? text = some p ∨ ofYaml? text = some p) ∧ p.violation? = none := by
  cases format with
  | json =>
      cases hread : ofJson? text with
      | none => simp [ofText, hread] at h
      | some q =>
          simp only [ofText, hread] at h
          obtain ⟨rfl, hrules⟩ := validate_eq_ok h
          exact ⟨.inl rfl, hrules⟩
  | yaml =>
      cases hread : ofYaml? text with
      | none => simp [ofText, hread] at h
      | some q =>
          simp only [ofText, hread] at h
          obtain ⟨rfl, hrules⟩ := validate_eq_ok h
          exact ⟨.inr rfl, hrules⟩

theorem ofText_yaml {text : String} {p : Project} (h : ofYaml? text = some p)
    (hrules : p.violation? = none) : ofText .yaml text = .ok p := by
  simp only [ofText, h, validate, hrules]

theorem manager_violation?_eq_none {p : Project} (h : p.violation? = none) :
    p.manager.violation? = none := by
  unfold violation? at h
  split at h
  · cases h
  · simp only [Option.or_eq_none_iff] at h
    exact h.2.2.2

/-- An accepted project can be read back. -/
theorem storable_of_ofText {format : DocumentFormat} {text : String} {p : Project}
    (h : ofText format text = .ok p) : p.Storable := by
  obtain ⟨hread, hrules⟩ := of_ofText h
  have hvalues : (∀ r ∈ p.roles, r.Storable) ∧ ∀ n, ∀ f ∈ p.state.fields n, f.Storable := by
    have hjson : Json.depthLimit ≤ valueDepth + 4 := by decide
    have hyaml : Yaml.depthLimit ≤ valueDepth + 4 := by decide
    rcases hread with hread | hread
    · obtain ⟨w, -, hread⟩ := Option.bind_eq_some_iff.mp hread
      obtain ⟨r, hr, heq⟩ := Option.bind_eq_some_iff.mp hread
      cases heq
      exact ensures_read Json.Place.bounded hjson _ _ _ hr
    · obtain ⟨d, -, hread⟩ := Option.bind_eq_some_iff.mp hread
      cases d with
      | none =>
          obtain ⟨r, hr, heq⟩ := Option.bind_eq_some_iff.mp hread
          cases heq
          exact ensures_read Yaml.Place.bounded hyaml _ _ _ hr
      | some d =>
          obtain ⟨r, hr, heq⟩ := Option.bind_eq_some_iff.mp hread
          cases heq
          exact ensures_read Yaml.Place.bounded hyaml _ _ _ hr
  exact ⟨hvalues.1, hvalues.2, manager_violation?_eq_none hrules⟩

/-- The text of an accepted project is accepted, and describes the project but for
    its defaults that are null: it is the same project if and only if there are none. -/
theorem ofText_toYaml {format : DocumentFormat} {text : String} {p : Project}
    (h : ofText format text = .ok p) :
    ofText .yaml p.toYaml = .ok p.dropNulls ∧
      (ofText .yaml p.toYaml = .ok p ↔ p.hasNullDefault = false) := by
  have hread : ofText .yaml p.toYaml = .ok p.dropNulls :=
    ofText_yaml (ofYaml?_toYaml (storable_of_ofText h))
      ((violation?_dropNulls p).trans (of_ofText h).2)
  refine ⟨hread, ?_⟩
  rw [hread, Except.ok.injEq]
  exact dropNulls_eq_self_iff p

/-- A project with a default that is no number. -/
def notANumberText : String :=
  "name: a\nstate:\n  publicInformation:\n  - name: x\n    type: any\n    default: .nan\n"

/-- A default that is no number is read as null, and does not come back. -/
theorem ofText_toYaml_notANumber : ∃ p, ofText .yaml notANumberText = .ok p ∧
    p.hasNullDefault = true ∧ ofText .yaml p.toYaml ≠ .ok p := by
  have hnull : (ofText .yaml notANumberText).toOption.any hasNullDefault = true := by
    decide +kernel
  cases h : ofText .yaml notANumberText with
  | error f =>
      rw [h] at hnull
      cases hnull
  | ok p =>
      rw [h] at hnull
      have hnull : p.hasNullDefault = true := hnull
      refine ⟨p, rfl, hnull, fun hread => ?_⟩
      rw [(ofText_toYaml h).2.mp hread] at hnull
      cases hnull

end Project

end SimStudio
