import SimStudio.Proofs.Project.Rules
import SimStudio.Proofs.Text.Runs
import SimStudio.Reference

/-!
# References Tell What They Refer To

A reference is a text between other texts, and names of fields and partials may be any
texts at all, also such as look like references themselves. Still no two references
agree that refer to different things.

A reference to a field has its braces at both ends and its qualifier in front, and no
qualifier holds a point. So the first point behind the opening braces is the one before
the name, whatever points the name holds (`StateNamespace.token_injective`). Since no two
namespaces share a qualifier, a field of one namespace is never taken for one of the same
name in another. References to partials begin otherwise and are never taken for those
(`includeReference_ne_token`).

What is left is that a project declares no field of a namespace twice and no partial
either, and that is a rule for projects.

## Main definitions

* `Project.deceptive`: A project whose names look like references.

## Theorems

* `StateNamespace.token_injective`: A reference to a field tells its namespace and its name.
* `includeReference_injective`, `includeReference_ne_token`: A reference to a partial tells
  the partial.
* `StateSchema.nodup_tokens`: No two references of a schema agree.
* `Project.references_unambiguous`: All this for a project that keeps the rules.
-/

namespace SimStudio

namespace StateNamespace

/-- No two namespaces have the same qualifier. -/
theorem qualifier_injective : Function.Injective qualifier := by
  intro n n' h
  revert h
  cases n <;> cases n' <;> decide

theorem point_not_mem_qualifier (n : StateNamespace) : '.' ∉ n.qualifier.toList := by
  cases n <;> decide

theorem toList_token (n : StateNamespace) (field : String) : (n.token field).toList =
    "\x7b\x7b ".toList ++ (n.qualifier.toList ++ '.' :: (field.toList ++ " \x7d\x7d".toList)) := by
  unfold token
  simp only [String.toList_append, List.append_assoc]
  rfl

/-- A reference to a field tells the namespace and the name. -/
theorem token_injective {n n' : StateNamespace} {field field' : String}
    (h : n.token field = n'.token field') : n = n' ∧ field = field' := by
  have htext := congrArg String.toList h
  rw [toList_token, toList_token] at htext
  -- The qualifier ends at the first point, even if there are points in the name.
  have hmark : ∀ (m : StateNamespace), ∀ c ∈ m.qualifier.toList, (c != '.') = true := by
    intro m c hc
    rw [bne_iff_ne]
    rintro rfl
    exact m.point_not_mem_qualifier hc
  have hpoint : ∀ (cs : List Char), ∀ c ∈ ('.' :: cs).head?, (c != '.') = false := by
    intro cs c hc
    rw [← Option.some.inj hc]
    rfl
  rcases Text.run_unique (hmark n) (hmark n') (hpoint _) (hpoint _)
    (List.append_cancel_left htext) with ⟨hqualifier, hrest⟩
  refine ⟨qualifier_injective (String.toList_inj.mp hqualifier), String.toList_inj.mp ?_⟩
  exact List.append_cancel_right (List.cons.inj hrest).2

end StateNamespace

theorem toList_includeReference (name : String) : (includeReference name).toList =
    "\x7b% include '".toList ++ (name.toList ++ "' %\x7d".toList) := by
  unfold includeReference
  rw [String.toList_append, String.toList_append, List.append_assoc]

/-- A reference to a partial tells its name. -/
theorem includeReference_injective : Function.Injective includeReference := by
  intro name name' h
  have htext := congrArg String.toList h
  rw [toList_includeReference, toList_includeReference] at htext
  exact String.toList_inj.mp (List.append_cancel_right (List.append_cancel_left htext))

/-- No reference to a partial is one to a field: their second characters differ. -/
theorem includeReference_ne_token (name : String) (n : StateNamespace) (field : String) :
    includeReference name ≠ n.token field := by
  intro h
  have htext := congrArg String.toList h
  rw [toList_includeReference, n.toList_token] at htext
  have hsecond := congrArg (·[1]?) htext
  exact absurd hsecond (by simp)

namespace StateSchema

/-- The references of a schema go through the namespaces, and in each through the fields as
    they are declared. -/
theorem references_eq (schema : StateSchema) : schema.references =
    (schema.metaFields.map fun f =>
      ⟨.metaInfo, f.name, StateNamespace.metaInfo.token f.name⟩) ++
    (schema.publicFields.map fun f =>
      ⟨.publicInfo, f.name, StateNamespace.publicInfo.token f.name⟩) ++
    (schema.privateFields.map fun f =>
      ⟨.privateInfo, f.name, StateNamespace.privateInfo.token f.name⟩) := by
  unfold references StateNamespace.all
  rw [List.flatMap_cons, List.flatMap_cons, List.flatMap_singleton, List.append_assoc]
  rfl

theorem mem_references (schema : StateSchema) {n : StateNamespace} {f : StateField}
    (h : f ∈ schema.fields n) : ⟨n, f.name, n.token f.name⟩ ∈ schema.references :=
  List.mem_flatMap.mpr ⟨n, Project.StateNamespace.mem_all n, List.mem_map_of_mem h⟩

/-- If no field of a namespace is declared twice, no two references agree. -/
theorem nodup_tokens {schema : StateSchema}
    (h : ∀ n, ((schema.fields n).map StateField.name).Nodup) :
    (schema.references.map FieldReference.token).Nodup := by
  unfold references
  rw [List.map_flatMap, List.nodup_flatMap]
  refine ⟨fun n _ => ?_, ?_⟩
  · -- In one namespace, references agree only if the names do.
    have htoken : Function.Injective n.token := fun field field' heq =>
      (StateNamespace.token_injective heq).2
    have hnames := (h n).map htoken
    rw [List.map_map] at hnames ⊢
    exact hnames
  · -- Those of two namespaces never agree.
    refine List.Pairwise.imp (fun {n n'} hne => ?_) (by decide : StateNamespace.all.Nodup)
    intro token htoken htoken'
    rcases List.mem_map.mp htoken with ⟨r, hr, rfl⟩
    rcases List.mem_map.mp htoken' with ⟨r', hr', heq⟩
    rcases List.mem_map.mp hr with ⟨f, -, rfl⟩
    rcases List.mem_map.mp hr' with ⟨f', -, rfl⟩
    exact hne (StateNamespace.token_injective heq).1.symm

end StateSchema

namespace Project

/-- The references of a project that keeps the rules go through the fields of the namespaces in
    order, and list each field once. No two of them agree, and any reference tells the
    namespace and the name that it was made from. The references to the partials differ from
    one another and from all references to fields. -/
theorem references_unambiguous {p : Project} (h : p.validate = .ok p) :
    p.state.references =
      (p.state.metaFields.map fun f =>
        ⟨.metaInfo, f.name, StateNamespace.metaInfo.token f.name⟩) ++
      (p.state.publicFields.map fun f =>
        ⟨.publicInfo, f.name, StateNamespace.publicInfo.token f.name⟩) ++
      (p.state.privateFields.map fun f =>
        ⟨.privateInfo, f.name, StateNamespace.privateInfo.token f.name⟩) ∧
    (∀ n, ∀ f ∈ p.state.fields n, p.state.references.count ⟨n, f.name, n.token f.name⟩ = 1) ∧
    (p.state.references.map FieldReference.token).Nodup ∧
    (∀ (n n' : StateNamespace) (field field' : String),
      n.token field = n'.token field' → n = n' ∧ field = field') ∧
    (p.partials.map fun q => includeReference q.name).Nodup ∧
    ∀ q ∈ p.partials, ∀ (n : StateNamespace) (field : String),
      includeReference q.name ≠ n.token field := by
  have hrules := validate_eq_ok_iff.mp h
  have htokens := StateSchema.nodup_tokens hrules.fieldNames
  refine ⟨p.state.references_eq, fun n f hf => ?_, htokens,
    fun n n' field field' => StateNamespace.token_injective, ?_,
    fun q _ n field => includeReference_ne_token q.name n field⟩
  · exact List.count_eq_one_of_mem htokens.of_map (p.state.mem_references hf)
  · have hnames := hrules.partialNames.map includeReference_injective
    rwa [List.map_map] at hnames

/-- A project whose names look like references. -/
def deceptive : Project where
  name := "a"
  partials := [⟨"1", "x", ""⟩, ⟨"2", "x' %\x7d\x7b% include 'x", ""⟩]
  state :=
    { metaFields := [⟨"x", "int", none⟩, ⟨"x \x7d\x7d\x7b\x7b meta.x", "int", none⟩]
      publicFields := [⟨"x", "int", none⟩, ⟨"information.x", "int", none⟩]
      privateFields := [⟨"x", "int", none⟩] }

/-- A name stands in all three namespaces here, and others hold points, braces and whole
    references. -/
theorem references_unambiguous_deceptive :
    deceptive.validate = .ok deceptive ∧
    deceptive.state.references.map FieldReference.token =
      ["\x7b\x7b meta.x \x7d\x7d", "\x7b\x7b meta.x \x7d\x7d\x7b\x7b meta.x \x7d\x7d",
        "\x7b\x7b public_information.x \x7d\x7d",
        "\x7b\x7b public_information.information.x \x7d\x7d",
        "\x7b\x7b private_information.x \x7d\x7d"] ∧
    (deceptive.state.references.map FieldReference.token).Nodup ∧
    (deceptive.partials.map fun q => includeReference q.name).Nodup := by
  have h : deceptive.validate = .ok deceptive := rfl
  rcases references_unambiguous h with ⟨-, -, htokens, -, hpartials, -⟩
  exact ⟨h, rfl, htokens, hpartials⟩

end Project

end SimStudio
