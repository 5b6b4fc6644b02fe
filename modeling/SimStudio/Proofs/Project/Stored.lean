import SimStudio.Command
import SimStudio.Proofs.Project.Accepted
import SimStudio.Proofs.Project.Inserting
import SimStudio.Proofs.Store.Writing

/-!
# Stored Projects Open Again

A project that has been saved is read from its file as it was, whatever the file
system held before, except from a file that has the ending of JSON files. Such
a file is read as JSON, what is written is YAML, and no YAML text of a project is
JSON.

Insertions into a stored project are made one after the other, each by a run of
the program. A run that fails leaves the file as it was, and one that succeeds
leaves the project with the slot changed. So by induction on the runs a file
that opens keeps opening.

## Main definitions

* `Project.Reopens`: A project that is what its text describes.
* `Project.stored`: What is read from a file of a world.
* `InsertRequest.Makes`: What a request makes of a project.
* `InsertRequest.runEach`: Requests one after the other.
* `Project.Edited`: What requests with their outcomes make of a project.

## Theorems

* `Project.reopens_iff`: Which projects are what their text describes.
* `Project.ofJson?_toYaml`: The text of a project is no JSON.
* `Project.stored_of_save`: What is read after saving.
* `InsertRequest.run_of_stored`: What a single run does to the file.
* `Project.stored_of_runEach`: What many runs do, by induction.
* `Project.opens_stored`: What is read after saving and after many runs.
-/

namespace SimStudio

namespace Project

/-- A project that is what its text describes. -/
def Reopens (p : Project) : Prop := ofText .yaml p.toYaml = .ok p

/-- A project is what its text describes if it keeps the rules, its values are not
    nested too deeply, and no default is null. -/
theorem reopens_iff (p : Project) :
    p.Reopens ↔ p.Storable ∧ p.hasNullDefault = false ∧ p.violation? = none := by
  constructor
  · intro h
    have hstorable := storable_of_ofText h
    obtain ⟨-, hrules⟩ := of_ofText h
    have hread := ofText_yaml (ofYaml?_toYaml hstorable) ((violation?_dropNulls p).trans hrules)
    exact ⟨hstorable, (dropNulls_eq_self_iff p).mp (Except.ok.inj (hread.symm.trans h)), hrules⟩
  · rintro ⟨hstorable, hnull, hrules⟩
    have hread := ofYaml?_toYaml hstorable
    rw [(dropNulls_eq_self_iff p).mpr hnull] at hread
    exact ofText_yaml hread hrules

/-- A change of a prompt has no part in this. -/
theorem Reworded.reopens {p q : Project} {id : UInt32} {slot text : String}
    (h : p.Reworded q id slot text) (hp : p.Reopens) : q.Reopens := by
  obtain ⟨hstorable, hnull, hrules⟩ := p.reopens_iff.mp hp
  -- Neither the depth of values nor defaults nor the rules have to do with prompts.
  refine q.reopens_iff.mpr ⟨?_, ?_, h.violation?_eq.trans hrules⟩
  · obtain ⟨before, role, after, prompts, hroles, -, -, rfl, -, -⟩ := h
    refine ⟨fun r hr => ?_, hstorable.fields, hstorable.manager⟩
    rcases List.mem_append.mp hr with hr | hr
    · exact hstorable.roles r (hroles ▸ List.mem_append_left _ hr)
    · rcases List.mem_cons.mp hr with rfl | hr
      · exact hstorable.roles role (hroles ▸ List.mem_append_right _ List.mem_cons_self)
      · exact hstorable.roles r (hroles ▸ List.mem_append_right _ (List.mem_cons_of_mem _ hr))
  · obtain ⟨before, role, after, prompts, -, -, -, rfl, -, -⟩ := h
    exact hnull

-- ## No text of a project is JSON

/-- The text of a project begins with one of three keys. -/
theorem exists_key_toYaml (p : Project) : ∃ key ∈ ["id", "createdAt", "name"], ∃ rest,
    p.toYaml.toList = key.toList ++ rest := by
  have hentries : ∃ key ∈ ["id", "createdAt", "name"], ∃ v rest,
      p.entries = (key, v) :: rest := by
    rw [entries]
    split
    · cases p.createdAt with
      | none => exact ⟨"name", by decide, _, _, rfl⟩
      | some t => exact ⟨"createdAt", by decide, _, _, rfl⟩
    · exact ⟨"id", by decide, _, _, rfl⟩
  obtain ⟨key, hkey, v, rest, hentries⟩ := hentries
  have hplain : Yaml.isSimpleKey key = true ∧
      Yaml.scalarIn (Yaml.styleOf key) 2 key.toList = key.toList := by
    simp only [List.mem_cons, List.not_mem_nil, or_false] at hkey
    rcases hkey with rfl | rfl | rfl
    · decide
    · decide
    · decide
  -- A plain key stands at the very beginning, without quotes or a mark.
  refine ⟨key, hkey, ?_⟩
  rw [toYaml, toTree_eq, hentries, Yaml.Tree.write, String.toList_ofList, Yaml.Tree.valueText,
    if_neg (by simp)]
  simp only [Yaml.Tree.entryTexts, hplain.1, if_true, Nat.zero_add, hplain.2, List.nil_append,
    List.append_assoc]
  exact ⟨_, rfl⟩

/-- The text of a project is no JSON. -/
theorem ofJson?_toYaml (p : Project) : ofJson? p.toYaml = none := by
  obtain ⟨key, hkey, rest, htext⟩ := p.exists_key_toYaml
  -- No value of JSON begins with the letters of a key, not even null with those of a name.
  have hvalue : ∀ fuel, Json.Grammar.value (fuel + 1) (key.toList ++ rest) = none := by
    intro fuel
    simp only [List.mem_cons, List.not_mem_nil, or_false] at hkey
    rcases hkey with rfl | rfl | rfl
    · rfl
    · rfl
    · rfl
  rw [ofJson?, Json.readText?, Json.written?, htext]
  simp only [hvalue]
  rfl

-- ## Saving and loading

/-- What is read from a file of a world. -/
def stored (path : Path) (w : World) : Except Failure Project := ofFile path (w.store.read? path)

theorem run_load (path : Path) (w : World) :
    (load path : StateM World (Except Failure Project)).run w = (stored path w, w) := rfl

theorem exists_content_of_stored {path : Path} {w : World} {p : Project}
    (h : stored path w = .ok p) : ∃ content, w.store.read? path = some content := by
  cases hread : w.store.read? path with
  | none =>
      rw [stored, hread] at h
      cases h
  | some content => exact ⟨content, rfl⟩

/-- What is read from a file into which a project has been written. -/
theorem ofFile_toYaml {p : Project} (h : p.Reopens) (path : Path) :
    ofFile path (some p.toYaml.toUTF8) =
      if path.isJson then .error (.request (.malformedProject .json)) else .ok p := by
  have htext : String.fromUTF8? p.toYaml.toUTF8 = some p.toYaml := by
    rw [String.fromUTF8?, dif_pos (show p.toYaml.toUTF8.IsValidUTF8 from p.toYaml.isValidUTF8)]
    rfl
  simp only [ofFile, Option.bind_some, htext, formatOf]
  cases path.isJson with
  | true => simp only [if_true, ofText, ofJson?_toYaml]
  | false =>
      simp only [Bool.false_eq_true, if_false]
      exact h

/-- What is read after saving, whatever the file system held: the project, unless
    the file is one for JSON. If saving has failed, a file that was there still holds
    what it held. -/
theorem stored_of_save {p : Project} (h : p.Reopens) (path : Path) (w : World) :
    ∃ result w', (p.save path : StateM World (Except Failure Unit)).run w = (result, w') ∧
      match result with
      | .ok _ => stored path w' =
          if path.isJson then .error (.request (.malformedProject .json)) else .ok p
      | .error _ => ∀ q, stored path w = .ok q → stored path w' = .ok q := by
  obtain ⟨result, t, u, later, hrun, hbuilt, hwritten⟩ :=
    World.run_writeAtomically path p.toYaml.toUTF8 w
  refine ⟨result, _, hrun, ?_⟩
  cases result with
  | ok done =>
      have hread : u.read? path = some p.toYaml.toUTF8 := Store.Written.read? hwritten
      simp only [stored, hread, ofFile_toYaml h]
  | error f =>
      intro q hq
      obtain ⟨content, hcontent⟩ := exists_content_of_stored hq
      have hgrown : w.store.Grown u := hbuilt.grown.trans (Store.Alike.furnished hwritten).grown
      have hread : u.read? path = some content := hgrown.read?_of_some hcontent
      rw [stored, hcontent] at hq
      simp only [stored, hread, hq]

end Project

-- ## A single run

namespace Step

variable {α β : Type} {w v : World} {a : α}

theorem run_bind_ok {first : Step (StateM World) α} {next : α → Step (StateM World) β}
    (h : first.run.run w = (.ok a, v)) : (first >>= next).run.run w = (next a).run.run v := by
  rw [ExceptT.run_bind]
  exact World.run_bind h

theorem run_bind_error {first : Step (StateM World) α} {next : α → Step (StateM World) β}
    {e : Stop} (h : first.run.run w = (.error e, v)) :
    (first >>= next).run.run w = (.error e, v) := by
  rw [ExceptT.run_bind]
  exact World.run_bind h

theorem run_ofFailing {act : StateM World (Except Failure α)} {result : Except Failure α}
    (h : act.run w = (result, v)) :
    (ofFailing act).run.run w = (result.mapError .failed, v) := by
  have hlift : (liftM act : Step (StateM World) (Except Failure α)).run.run w =
      (.ok result, v) := by
    rw [ExceptT.run_liftM, StateT.run_map, h]
    rfl
  refine (run_bind_ok hlift).trans ?_
  cases result <;> rfl

/-- What a bad request has spoilt ends the run where it is. -/
theorem run_ofRequest_bind (result : Except RequestError α)
    (next : α → Step (StateM World) β) (w : World) :
    (ofRequest result >>= next).run.run w =
      match result with
      | .ok a => (next a).run.run w
      | .error e => (.error (.failed (.request e)), w) := by
  cases result <;> rfl

end Step

/-- A world in which a message has been logged. -/
def World.logged (w : World) (level : LogLevel) (message : String)
    (fields : List (String × String)) : World :=
  { w with log := w.log.push ⟨level, message, fields⟩ }

theorem Step.run_log_bind {α : Type} (level : LogLevel) (message : String)
    (fields : List (String × String)) (next : Unit → Step (StateM World) α) (w : World) :
    ((liftM (Machine.log level message fields : StateM World Unit) : Step (StateM World) Unit)
      >>= next).run.run w = (next ()).run.run (w.logged level message fields) := rfl

namespace InsertRequest

open Project

/-- What a request makes of a project: the literal that it names comes into the
    place of the selection, and nothing else changes. -/
def Makes (r : InsertRequest) (p q : Project) : Prop :=
  ∃ literal selection role first last, r.insertion.literal p = .ok literal ∧
    selectionOf r.first r.last = .ok selection ∧ p.role? r.role = some role ∧
    selectionIn (role.prompt r.slot) selection = (first, last) ∧
    p.Reworded q r.role r.slot (spliced (role.prompt r.slot) first last literal)

theorem Makes.reopens {r : InsertRequest} {p q : Project} (h : r.Makes p q) (hp : p.Reopens) :
    q.Reopens := by
  obtain ⟨_, _, _, _, _, _, _, _, _, hreworded⟩ := h
  exact hreworded.reopens hp

/-- A request whose insertion is made. -/
theorem makes_of_run {r : InsertRequest} {p q : Project} {literal : String}
    {selection : Option (Nat × Nat)} {caret : Nat} (hliteral : r.insertion.literal p = .ok literal)
    (hselection : selectionOf r.first r.last = .ok selection)
    (hrun : (insertIntoPrompt r.role r.slot literal selection).run.run p = (.ok caret, q)) :
    r.Makes p q := by
  cases hrole : p.role? r.role with
  | none =>
      rw [run_insertIntoPrompt_of_none literal hrole] at hrun
      cases hrun
  | some role =>
      cases hin : selectionIn (role.prompt r.slot) selection with
      | mk first last =>
          refine ⟨literal, selection, role, first, last, hliteral, hselection, hrole, hin, ?_⟩
          by_cases hwithin : first ≤ last ∧ last ≤ (role.prompt r.slot).length
          · obtain ⟨q', hrun', hreworded⟩ :=
              run_insertIntoPrompt_within literal hrole hin hwithin.1 hwithin.2
            obtain ⟨-, rfl⟩ := Prod.mk.inj (hrun.symm.trans hrun')
            exact hreworded
          · rw [run_insertIntoPrompt_outside literal hrole hin hwithin] at hrun
            cases hrun

/-- A request for a file that does not open fails, and nothing happens. -/
theorem run_of_stored_error {r : InsertRequest} {w : World} {f : Failure}
    (h : stored r.project w = .error f) :
    (r.run : Step (StateM World) Unit).run.run w = (.error (.failed f), w) := by
  have hload := run_load r.project w
  rw [h] at hload
  exact Step.run_bind_error (Step.run_ofFailing hload)

/-- A request for a file that opens. If it fails the file still holds the project.
    If it succeeds the file holds what the request makes of the project; one for
    JSON does not open any more. -/
theorem run_of_stored {r : InsertRequest} {p : Project} {w : World} (hp : p.Reopens)
    (h : stored r.project w = .ok p) :
    ∃ outcome w', (r.run : Step (StateM World) Unit).run.run w = (outcome, w') ∧
      match outcome with
      | .error _ => stored r.project w' = .ok p
      | .ok _ => ∃ q, r.Makes p q ∧ stored r.project w' =
          if r.project.isJson then .error (.request (.malformedProject .json)) else .ok q := by
  have hload := run_load r.project w
  rw [h] at hload
  rw [InsertRequest.run, Step.run_bind_ok (Step.run_ofFailing hload)]
  rw [Step.run_ofRequest_bind]
  cases hliteral : r.insertion.literal p with
  | error e => exact ⟨_, w, rfl, h⟩
  | ok literal =>
      dsimp only
      rw [Step.run_ofRequest_bind]
      cases hselection : selectionOf r.first r.last with
      | error e => exact ⟨_, w, rfl, h⟩
      | ok selection =>
          dsimp only
          cases hedited : (insertIntoPrompt r.role r.slot literal selection).run.run p with
          | mk edited q =>
              cases edited with
              | error e => exact ⟨.error e, w, rfl, h⟩
              | ok caret =>
                  -- Two messages are logged, and then the file is the only thing left to change.
                  have hmakes := makes_of_run hliteral hselection hedited
                  obtain ⟨result, w', hsave, hresult⟩ :=
                    stored_of_save (hmakes.reopens hp) r.project
                      ((w.logged .debug "restored caret after commit"
                        [("caret", toString caret)]).logged .debug "inserted literal"
                        [("role_id", toString r.role), ("slot", r.slot),
                          ("caret", toString caret)])
                  have hrun := Step.run_ofFailing hsave
                  have hcaret : (ExceptT.mk (pure (.ok caret)) :
                      Step (StateM World) Nat).run.run w = (.ok caret, w) := rfl
                  dsimp only
                  rw [Step.run_bind_ok hcaret, Step.run_log_bind, Step.run_log_bind]
                  cases result with
                  | error f => exact ⟨_, w', Step.run_bind_error hrun, hresult p h⟩
                  | ok u => exact ⟨_, _, Step.run_bind_ok hrun, q, hmakes, hresult⟩

-- ## Many runs

/-- Requests one after the other, each in a run of its own, with their outcomes. -/
def runEach (rs : List InsertRequest) : StateM World (List (Except Stop Unit)) :=
  rs.mapM fun r => (r.run : Step (StateM World) Unit).run

theorem run_runEach_cons {r : InsertRequest} {w v : World} {outcome : Except Stop Unit}
    (h : (r.run : Step (StateM World) Unit).run.run w = (outcome, v)) (rs : List InsertRequest) :
    (runEach (r :: rs)).run w = (outcome :: ((runEach rs).run v).1, ((runEach rs).run v).2) := by
  rw [runEach, List.mapM_cons, World.run_bind h]
  rfl

end InsertRequest

namespace Project

open InsertRequest

/-- What requests make of a project: each that has succeeded makes its change, and
    the others make none. -/
inductive Edited : Project → List InsertRequest → List (Except Stop Unit) → Project → Prop
  | none (p : Project) : Edited p [] [] p
  | refused {p q : Project} {r : InsertRequest} {e : Stop} {rs : List InsertRequest}
      {outcomes : List (Except Stop Unit)} (later : Edited p rs outcomes q) :
      Edited p (r :: rs) (.error e :: outcomes) q
  | made {p p' q : Project} {r : InsertRequest} {rs : List InsertRequest}
      {outcomes : List (Except Stop Unit)} (here : r.Makes p p')
      (later : Edited p' rs outcomes q) : Edited p (r :: rs) (.ok () :: outcomes) q

theorem edited_of_refused (p : Project) (rs : List InsertRequest) (e : Stop) :
    p.Edited rs (rs.map fun _ => .error e) p := by
  induction rs with
  | nil => exact .none p
  | cons r rs ih => exact .refused ih

/-- A file that does not open stays as it is. -/
theorem run_runEach_of_stored_error {path : Path} {w : World} {f : Failure}
    (h : stored path w = .error f) {rs : List InsertRequest}
    (hrs : ∀ r ∈ rs, r.project = path) :
    (runEach rs).run w = (rs.map fun _ => .error (.failed f), w) := by
  induction rs with
  | nil => rfl
  | cons r rs ih =>
      have hr := run_of_stored_error (hrs r List.mem_cons_self ▸ h)
      rw [run_runEach_cons hr, ih fun r hr => hrs r (List.mem_cons_of_mem _ hr), List.map_cons]

/-- After any requests for a file it holds what those that succeeded have made of
    the project. One for JSON opens only until the first of them. -/
theorem stored_of_runEach {path : Path} {p : Project} {w : World} (hp : p.Reopens)
    (h : stored path w = .ok p) {rs : List InsertRequest} (hrs : ∀ r ∈ rs, r.project = path) :
    ∃ outcomes w' q, (runEach rs).run w = (outcomes, w') ∧ p.Edited rs outcomes q ∧
      stored path w' = if path.isJson && outcomes.any Except.isOk then
        .error (.request (.malformedProject .json)) else .ok q := by
  -- Each run finds the project that the runs before it have left. In a file for JSON a success
  -- ends this, and all later runs fail on reading the file.
  induction rs generalizing p w with
  | nil => exact ⟨[], w, p, rfl, .none p, by simpa using h⟩
  | cons r rs ih =>
      have hr : r.project = path := hrs r List.mem_cons_self
      have hrest : ∀ r ∈ rs, r.project = path := fun r hr => hrs r (List.mem_cons_of_mem _ hr)
      obtain ⟨outcome, v, hrun, houtcome⟩ := run_of_stored hp (hr.symm ▸ h)
      rw [run_runEach_cons hrun]
      rw [hr] at houtcome
      cases outcome with
      | error e =>
          obtain ⟨outcomes, w', q, hruns, hedited, hstored⟩ := ih hp houtcome hrest
          rw [hruns]
          exact ⟨_, _, q, rfl, .refused hedited, hstored⟩
      | ok u =>
          obtain ⟨q, hmakes, hstored⟩ := houtcome
          cases hjson : path.isJson with
          | true =>
              rw [hjson] at hstored
              rw [run_runEach_of_stored_error hstored hrest]
              exact ⟨_, _, q, rfl, .made hmakes (edited_of_refused q rs _), hstored⟩
          | false =>
              rw [hjson] at hstored
              obtain ⟨outcomes, w', q', hruns, hedited, hstored'⟩ :=
                ih (hmakes.reopens hp) hstored hrest
              rw [hruns]
              rw [hjson] at hstored'
              exact ⟨_, _, q', rfl, .made hmakes hedited, hstored'⟩

/-- A project that has been saved is read from its file, and so is what insertions
    have made of it, one after the other, whatever the file system held. A file for
    JSON is the exception: it does not open after any success. -/
theorem opens_stored (path : Path) :
    (∀ (p : Project) (w w' : World), p.Reopens →
      (p.save path : StateM World (Except Failure Unit)).run w = (.ok (), w') →
      (load path : StateM World (Except Failure Project)).run w' =
        (if path.isJson then .error (.request (.malformedProject .json)) else .ok p, w')) ∧
    ∀ (p : Project) (w : World) (rs : List InsertRequest), p.Reopens →
      (load path : StateM World (Except Failure Project)).run w = (.ok p, w) →
      (∀ r ∈ rs, r.project = path) →
      ∃ outcomes w' q, (runEach rs).run w = (outcomes, w') ∧ p.Edited rs outcomes q ∧
        (load path : StateM World (Except Failure Project)).run w' =
          (if path.isJson && outcomes.any Except.isOk then
            .error (.request (.malformedProject .json)) else .ok q, w') := by
  refine ⟨fun p w w' hp hsave => ?_, fun p w rs hp hload hrs => ?_⟩
  · obtain ⟨result, v, hrun, hstored⟩ := stored_of_save hp path w
    obtain ⟨rfl, rfl⟩ := Prod.mk.inj (hrun.symm.trans hsave)
    rw [run_load, hstored]
  · obtain ⟨outcomes, w', q, hruns, hedited, hstored⟩ :=
      stored_of_runEach hp (Prod.mk.inj hload).1 hrs
    exact ⟨outcomes, w', q, hruns, hedited, by rw [run_load, hstored]⟩

/-- A project with a role whose prompts are still to be written. -/
def unwritten : Project := { name := "a", roles := [{ id := 1, name := "r" }] }

/-- A request for the first text of a prompt. -/
def firstText : InsertRequest :=
  { project := ⟨"a.yaml"⟩, role := 1, slot := "s", insertion := .text "x" }

/-- It is saved and opened, and then the request is made. -/
theorem opens_stored_unwritten : ∃ w outcomes w' q,
    (unwritten.save ⟨"a.yaml"⟩ : StateM World (Except Failure Unit)).run {} = (.ok (), w) ∧
    (load ⟨"a.yaml"⟩ : StateM World (Except Failure Project)).run w = (.ok unwritten, w) ∧
    (runEach [firstText]).run w = (outcomes, w') ∧ unwritten.Edited [firstText] outcomes q ∧
    (load ⟨"a.yaml"⟩ : StateM World (Except Failure Project)).run w' = (.ok q, w') := by
  have hreopens : unwritten.Reopens := by
    refine unwritten.reopens_iff.mpr
      ⟨⟨fun r hr => ?_, fun n f hf => ?_, rfl⟩, by decide, by decide⟩
    · rw [List.mem_singleton.mp hr]
      exact List.forall_mem_nil _
    · cases n <;> exact absurd hf List.not_mem_nil
  obtain ⟨w, hsave⟩ : ∃ w,
      (unwritten.save ⟨"a.yaml"⟩ : StateM World (Except Failure Unit)).run {} = (.ok (), w) :=
    ⟨_, rfl⟩
  have hload : (load ⟨"a.yaml"⟩ : StateM World (Except Failure Project)).run w =
      (.ok unwritten, w) := (opens_stored ⟨"a.yaml"⟩).1 unwritten {} w hreopens hsave
  obtain ⟨outcomes, w', q, hruns, hedited, hopened⟩ :=
    (opens_stored ⟨"a.yaml"⟩).2 unwritten w [firstText] hreopens hload (by simp [firstText])
  exact ⟨w, outcomes, w', q, hsave, hload, hruns, hedited, hopened⟩

end Project

end SimStudio
