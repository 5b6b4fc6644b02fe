import Mathlib.Data.List.Nodup
import Mathlib.Data.List.Perm.Subperm
import Mathlib.Logic.Relation
import SimStudio.Proofs.Store.Naming

/-!
# What Writing a File Changes

A file that is written has the new content, or nothing has changed at all, but
for directories that were missing above it. The new file beside the target stands
at a place that was free, and it is gone in the end: it has become the target, or
it has been removed again.

This is so wherever writing stops. A change is made as a whole or interrupted
(`change_cases`), and what an interrupted one leaves behind is of the same kind: some
of the directories (`built_createAbove`), or a temporary file with something in it.

The temporary file is known to the program by its path only. That the path leads
to the very file is `eq_of_locate_absolutePath`. That its name was free, and ends nothing
that has been mentioned, is a matter of counting: `n` nodes take at most `n` names, and
`k` texts are ended by at most `k` of them.

## Main definitions

* `Path.IsAbove`: A path without some of its last components.
* `Store.Alike`: Two trees in which the same stands at every place.
* `Store.Grown`: A tree with all that stands in another one.
* `Store.Furnished`: A tree with directories that were missing.
* `Store.Prepared`: A tree with directories that were missing above a path.
* `Store.Built`: A tree in which directories have been created above a path.
* `Store.Written`: A tree in which a file has got a content.

## Theorems

* `Store.exists_freshName`: A fresh name is free and ends no text that is known.
* `Store.built_createMissing`: Directories are created one after the other.
* `Store.Built.prepared`: Only directories are created, and only above a path.
* `Store.Written.read?`: What has been written is read.
* `World.run_fillAndReplace`: A temporary file becomes the target, or it is still there.
* `World.run_writeAtomically`: A file is written, or nothing happens to files.
-/

namespace SimStudio

/-- A path without some of its last components, or with all of them. -/
def Path.IsAbove (p above : Path) : Prop :=
  Relation.ReflTransGen (fun q r => q.parent? = some r) p above

namespace Store

/-- The same stands at every place, and paths start at the same place. -/
structure Alike (s t : Store) : Prop where
  start : t.workingDirectory = s.workingDirectory
  temporary : t.temporaryDirectory = s.temporaryDirectory
  node? : ∀ place, t.node? place = s.node? place

/-- `t` has all that stands in `s`, and paths start at the same place. -/
structure Grown (s t : Store) : Prop where
  start : t.workingDirectory = s.workingDirectory
  temporary : t.temporaryDirectory = s.temporaryDirectory
  node? : ∀ place n, s.node? place = some n → t.node? place = some n

/-- `t` is `s` with directories where nothing stood. -/
structure Furnished (s t : Store) : Prop where
  start : t.workingDirectory = s.workingDirectory
  temporary : t.temporaryDirectory = s.temporaryDirectory
  node? : ∀ place, t.node? place = s.node? place ∨
    s.node? place = none ∧ t.node? place = some .directory

/-- `t` is `s` with directories where nothing stood, all of them above a path. -/
structure Prepared (s : Store) (p : Path) (t : Store) : Prop where
  furnished : s.Furnished t
  above : ∀ place, s.node? place = none → t.node? place ≠ none →
    ∃ above, p.IsAbove above ∧ t.locate above = .ok place

/-- `t` comes of `s` by creating directories one after the other, all of them above a
    path. -/
def Built (s : Store) (p : Path) (t : Store) : Prop :=
  Relation.ReflTransGen (fun s t => ∃ above, p.IsAbove above ∧ s.createDirectory above = .ok t) s t

/-- `t` is `s` with a content in the file that a path names. -/
def Written (s : Store) (path : Path) (content : ByteArray) (t : Store) : Prop :=
  ∃ directory name, s.locateEntry path = .ok (directory, name) ∧
    path.text.toList.getLast? ≠ some '/' ∧ s.node? (name :: directory) ≠ some .directory ∧
    (s.put (name :: directory) (.file content)).Alike t

theorem Alike.refl (s : Store) : s.Alike s := ⟨rfl, rfl, fun _ => rfl⟩

namespace Grown

variable {s t u : Store}

theorem refl (s : Store) : s.Grown s := ⟨rfl, rfl, fun _ _ h => h⟩

theorem trans (h : s.Grown t) (h' : t.Grown u) : s.Grown u :=
  ⟨h'.start.trans h.start, h'.temporary.trans h.temporary,
    fun place n hn => h'.node? place n (h.node? place n hn)⟩

theorem keeps (h : s.Grown t) : s.Keeps t := ⟨h.start, fun place => h.node? place .directory⟩

/-- A file that is read somewhere still is. -/
theorem read?_of_some (h : s.Grown t) {p : Path} {content : ByteArray}
    (hs : s.read? p = some content) : t.read? p = some content := by
  obtain ⟨place, hlocate, hnode⟩ := (s.read?_eq_some_iff p content).mp hs
  exact (t.read?_eq_some_iff p content).mpr ⟨place, h.keeps.locate hlocate, h.node? place _ hnode⟩

/-- Where something stands, something still does. -/
theorem holds (h : s.Grown t) {p : Path} (hs : s.holds p = true) : t.holds p = true := by
  obtain ⟨place, hlocate, hnode⟩ := (s.holds_iff p).mp hs
  obtain ⟨n, hn⟩ := Option.ne_none_iff_exists'.mp hnode
  refine (t.holds_iff p).mpr ⟨place, h.keeps.locate hlocate, ?_⟩
  rw [h.node? place n hn]
  exact Option.some_ne_none n

/-- Where nothing stands any more, nothing has been standing. -/
theorem holds_eq_false (h : s.Grown t) {p : Path} (ht : t.holds p = false) :
    s.holds p = false := by
  rw [← Bool.not_eq_true]
  intro hs
  exact Bool.false_ne_true (ht.symm.trans (h.holds hs))

end Grown

namespace Furnished

variable {s t u : Store}

theorem refl (s : Store) : s.Furnished s := ⟨rfl, rfl, fun _ => .inl rfl⟩

theorem trans (h : s.Furnished t) (h' : t.Furnished u) : s.Furnished u := by
  refine ⟨h'.start.trans h.start, h'.temporary.trans h.temporary, fun place => ?_⟩
  rcases h'.node? place with heq | ⟨hnone, hdirectory⟩
  · rw [heq]
    exact h.node? place
  · refine .inr ⟨?_, hdirectory⟩
    rcases h.node? place with heq | ⟨hnone', -⟩
    · rw [← heq, hnone]
    · exact hnone'

/-- Whatever stands somewhere stays there. -/
theorem grown (h : s.Furnished t) : s.Grown t := by
  refine ⟨h.start, h.temporary, fun place n hn => ?_⟩
  rcases h.node? place with heq | ⟨hnone, -⟩
  · rw [heq, hn]
  · rw [hnone] at hn
    cases hn

end Furnished

theorem Alike.furnished {s t : Store} (h : s.Alike t) : s.Furnished t :=
  ⟨h.start, h.temporary, fun place => .inl (h.node? place)⟩

theorem ne_directory_of_free {s : Store} {place : Location} (h : s.node? place = none) :
    s.node? place ≠ some .directory := by
  rw [h]
  exact nofun

theorem ne_nil_of_node?_ne {s : Store} {place : Location} (h : s.node? place ≠ some .directory) :
    place ≠ [] := by
  rintro rfl
  exact h s.node?_nil

/-- What is put where nothing stood takes the place of nothing. -/
theorem grown_put {s : Store} {place : Location} (h : s.node? place = none) (n : Node) :
    s.Grown (s.put place n) := by
  refine ⟨rfl, rfl, fun q m hq => ?_⟩
  rw [node?_put _ (ne_nil_of_node?_ne (ne_directory_of_free h)), if_neg fun heq => ?_, hq]
  rw [heq, h] at hq
  cases hq

-- ## Directories

/-- A directory that is created stands at a place of another one that was free. -/
theorem createDirectory_eq_ok {s t : Store} {p : Path} (h : s.createDirectory p = .ok t) :
    ∃ directory name, s.locateEntry p = .ok (directory, name) ∧
      s.node? (name :: directory) = none ∧ t = s.put (name :: directory) .directory := by
  unfold createDirectory at h
  cases hentry : s.locateEntry p with
  | error e => simp [hentry, bind, Except.bind] at h
  | ok entry =>
      obtain ⟨directory, name⟩ := entry
      cases hnode : s.node? (name :: directory) with
      | some n => simp [hentry, hnode, bind, Except.bind] at h
      | none =>
          simp only [hentry, hnode, bind, Except.bind, Except.ok.injEq] at h
          exact ⟨directory, name, rfl, hnode, h.symm⟩

theorem furnished_put_directory {s : Store} {place : Location} (h : s.node? place = none) :
    s.Furnished (s.put place .directory) := by
  refine ⟨rfl, rfl, fun q => ?_⟩
  rw [node?_put _ (ne_nil_of_node?_ne (ne_directory_of_free h))]
  by_cases hq : q = place
  · exact .inr ⟨hq ▸ h, if_pos hq⟩
  · exact .inl (if_neg hq)

/-- A path leads to the directory that has been created there. -/
theorem prepared_of_createDirectory {s t : Store} {p : Path} (h : s.createDirectory p = .ok t) :
    s.Prepared p t := by
  obtain ⟨directory, name, hentry, hfree, rfl⟩ := createDirectory_eq_ok h
  have hput := s.node?_put (List.cons_ne_nil name directory) .directory
  have hfurnished := furnished_put_directory hfree
  refine ⟨hfurnished, fun place hnone hsome => ⟨p, .refl, ?_⟩⟩
  obtain rfl : place = name :: directory := by
    by_contra hne
    rw [hput, if_neg hne] at hsome
    exact hsome hnone
  exact locate_of_entry (hfurnished.grown.keeps.locateEntry hentry) (by rw [hput, if_pos rfl])

namespace Built

variable {s t : Store} {p : Path}

theorem refl (s : Store) (p : Path) : s.Built p s := Relation.ReflTransGen.refl

theorem of_createDirectory (h : s.createDirectory p = .ok t) : s.Built p t :=
  .single ⟨p, .refl, h⟩

/-- What is created above a path without its last components is above the path. -/
theorem of_isAbove {above : Path} (habove : p.IsAbove above) (h : s.Built above t) :
    s.Built p t :=
  Relation.ReflTransGen.mono (fun _ _ ⟨q, hq, hcreate⟩ => ⟨q, habove.trans hq, hcreate⟩) s t h

end Built

/-- Directories are created one after the other. -/
theorem built_createMissing (fuel : Nat) (s : Store) (p : Path) :
    s.Built p (createMissing fuel s p).2 := by
  -- A directory is tried, then the one above it, then the first one again; every way through
  -- this is made of single creations.
  induction fuel generalizing s p with
  | zero => exact .refl s p
  | succ fuel ih =>
      rw [createMissing]
      split
      · exact .refl s p
      · split
        · exact .of_createDirectory ‹_›
        · exact .refl s p
        · split
          · exact .refl s p
          · rename_i above hparent
            have habove : s.Built p _ := .of_isAbove (.single hparent) (ih s above)
            split
            · rename_i heq
              rw [heq] at habove
              exact habove
            · rename_i t heq
              rw [heq] at habove
              split
              · exact habove.trans (Built.of_createDirectory ‹_›)
              · exact habove

/-- So are those that there are when this is interrupted. -/
theorem built_createAbove (s : Store) (p : Path) (more : Nat) :
    s.Built p (s.createAbove p more) := by
  induction more generalizing p with
  | zero =>
      rw [createAbove]
      split
      · exact .refl s p
      · exact .of_isAbove (.single ‹_›) (built_createMissing _ s _)
  | succ more ih =>
      rw [createAbove]
      split
      · exact .refl s p
      · exact .of_isAbove (.single ‹_›) (ih _)

namespace Prepared

variable {s t u : Store} {p : Path}

theorem refl (s : Store) (p : Path) : s.Prepared p s :=
  ⟨.refl s, fun _ hnone hsome => absurd hnone hsome⟩

theorem trans (h : s.Prepared p t) (h' : t.Prepared p u) : s.Prepared p u := by
  refine ⟨h.furnished.trans h'.furnished, fun place hnone hsome => ?_⟩
  by_cases ht : t.node? place = none
  · exact h'.above place ht hsome
  · obtain ⟨above, habove, hlocate⟩ := h.above place hnone ht
    exact ⟨above, habove, h'.furnished.grown.keeps.locate hlocate⟩

/-- What is created above a path without its last components is above the path. -/
theorem of_isAbove {above : Path} (habove : p.IsAbove above) (h : s.Prepared above t) :
    s.Prepared p t := by
  refine ⟨h.furnished, fun place hnone hsome => ?_⟩
  obtain ⟨q, hq, hlocate⟩ := h.above place hnone hsome
  exact ⟨q, habove.trans hq, hlocate⟩

end Prepared

/-- Nothing but directories is created, only where nothing stood, and only above a
    path. -/
theorem Built.prepared {s t : Store} {p : Path} (h : s.Built p t) : s.Prepared p t := by
  induction h with
  | refl => exact .refl s p
  | tail _ hstep ih =>
      obtain ⟨above, habove, hcreate⟩ := hstep
      exact ih.trans (.of_isAbove habove (prepared_of_createDirectory hcreate))

theorem Built.grown {s t : Store} {p : Path} (h : s.Built p t) : s.Grown t :=
  h.prepared.furnished.grown

-- ## Fresh files

theorem mem_keys_of_node? {s : Store} {place : Location} (hne : place ≠ [])
    (h : s.node? place ≠ none) : place ∈ s.nodes.map Prod.fst := by
  rw [node?, if_neg hne] at h
  obtain ⟨n, hn⟩ := Option.ne_none_iff_exists'.mp h
  obtain ⟨before, behind, heq, -⟩ := List.lookup_eq_some_iff.mp hn
  rw [heq, List.map_append, List.map_cons]
  exact List.mem_append_right _ List.mem_cons_self

/-- There are as many nodes as places where something stands below the root. -/
theorem length_le_of_taken {s : Store} {places : List Location} (hdistinct : places.Nodup)
    (htaken : ∀ place ∈ places, place ≠ [] ∧ s.node? place ≠ none) :
    places.length ≤ s.nodes.length := by
  have hkeys : places ⊆ s.nodes.map Prod.fst := fun place hplace =>
    mem_keys_of_node? (htaken place hplace).1 (htaken place hplace).2
  have hlength := (hdistinct.subperm hkeys).length_le
  rwa [List.length_map] at hlength

theorem isEnding_iff (name text : String) :
    isEnding name text = true ↔ name.toList <:+ text.toList := List.isSuffixOf_iff_suffix

/-- There are as many texts as names of a series that end one of them: each text is ended
    by one name only. -/
theorem length_le_of_ending {name : Nat → String} (hname : EndsApart name)
    {known : List String} {numbers : List Nat} (hdistinct : numbers.Nodup)
    (hends : ∀ n ∈ numbers, known.any (isEnding (name n)) = true) :
    numbers.length ≤ known.length := by
  -- Each number is sent to the first text that its name ends.
  have hfound : ∀ n ∈ numbers, ∃ text, known.find? (isEnding (name n)) = some text := by
    intro n hn
    rw [← Option.isSome_iff_exists, List.find?_isSome]
    exact List.any_eq_true.mp (hends n hn)
  have htexts : (numbers.map fun n => known.find? (isEnding (name n))).Nodup := by
    refine hdistinct.map_on fun m hm n hn heq => ?_
    obtain ⟨text, htext⟩ := hfound m hm
    exact hname m n text.toList ((isEnding_iff _ _).mp (List.find?_some htext))
      ((isEnding_iff _ _).mp (List.find?_some (heq ▸ htext)))
  have hknown : (numbers.map fun n => known.find? (isEnding (name n))) ⊆ known.map some := by
    intro found hmem
    obtain ⟨n, hn, rfl⟩ := List.mem_map.mp hmem
    obtain ⟨text, htext⟩ := hfound n hn
    rw [htext]
    exact List.mem_map_of_mem (List.mem_of_find?_eq_some htext)
  have hlength := (htexts.subperm hknown).length_le
  rwa [List.length_map, List.length_map] at hlength

/-- Of more names than there are nodes and texts, one is not taken and ends none of the
    texts. -/
theorem exists_unused (s : Store) (known : List String) (directory : Location)
    {name : Nat → String} (hname : EndsApart name) :
    ∃ n < s.nodes.length + known.length + 1, s.node? (name n :: directory) = none ∧
      known.any (isEnding (name n)) = false := by
  by_contra! hall
  -- The numbers whose names are taken are at most as many as the nodes, and the others
  -- at most as many as the texts.
  let taken : Nat → Bool := fun n => (s.node? (name n :: directory)).isSome
  have hdistinct := List.nodup_range (n := s.nodes.length + known.length + 1)
  have hplaces : (((List.range (s.nodes.length + known.length + 1)).filter taken).map
      fun n => name n :: directory).Nodup :=
    (hdistinct.filter taken).map fun m n h => hname.injective (List.cons.inj h).1
  have hnodes := length_le_of_taken (s := s) hplaces fun place hplace => by
    obtain ⟨n, hn, rfl⟩ := List.mem_map.mp hplace
    exact ⟨List.cons_ne_nil _ _, Option.isSome_iff_ne_none.mp (List.mem_filter.mp hn).2⟩
  have htexts := length_le_of_ending hname (hdistinct.filter (!taken ·)) fun n hn => by
    obtain ⟨hrange, hfree⟩ := List.mem_filter.mp hn
    rw [Bool.not_eq_true', Option.isSome_eq_false_iff, Option.isNone_iff_eq_none] at hfree
    exact (Bool.not_eq_false _).mp (hall n (List.mem_range.mp hrange) hfree)
  have hlength := List.length_eq_length_filter_add
    (l := List.range (s.nodes.length + known.length + 1)) taken
  rw [List.length_map] at hnodes
  rw [List.length_range] at hlength
  omega

/-- A fresh name is one of its series, it is not taken, and it ends none of the texts. -/
theorem exists_freshName (s : Store) (known : List String) (directory : Location)
    {name : Nat → String} (hname : EndsApart name) :
    ∃ n, s.freshName known directory name = name n ∧ s.node? (name n :: directory) = none ∧
      ∀ text ∈ known, ¬(name n).toList <:+ text.toList := by
  obtain ⟨m, hm, hfree, hends⟩ := s.exists_unused known directory hname
  rw [freshName]
  cases hfind : ((List.range (s.nodes.length + known.length + 1)).map name).find?
      (fun name => (s.node? (name :: directory)).isNone && !known.any (isEnding name)) with
  | none =>
      have hmem := List.mem_map_of_mem (f := name) (List.mem_range.mpr hm)
      exact absurd (List.find?_eq_none.mp hfind _ hmem) (by simp [hfree, hends])
  | some found =>
      obtain ⟨n, -, rfl⟩ := List.mem_map.mp (List.mem_of_find?_eq_some hfind)
      obtain ⟨hused, hunknown⟩ := Bool.and_eq_true_iff.mp
        (List.find?_eq_some_iff_append.mp hfind).1
      refine ⟨n, rfl, Option.isNone_iff_eq_none.mp hused, fun text htext hsuffix => ?_⟩
      rw [Bool.not_eq_true', List.any_eq_false] at hunknown
      exact hunknown text htext ((isEnding_iff _ _).mpr hsuffix)

/-- A file that has been created stands in a directory under its fresh name. -/
theorem createFresh_eq_some {s : Store} {known : List String} {directory : Location}
    {made : Location × Store} {name : Nat → String}
    (h : s.createFresh known directory name = some made) :
    s.node? directory = some .directory ∧ made = (s.freshName known directory name :: directory,
      s.put (s.freshName known directory name :: directory) (.file .empty)) := by
  rw [createFresh] at h
  cases henter : s.enter directory with
  | error e => simp [henter] at h
  | ok u =>
      simp only [henter, Option.some.injEq] at h
      exact ⟨(s.enter_eq_ok_iff directory).mp henter, h.symm⟩

/-- A file at a place that was free makes no difference to directories. -/
theorem keeps_put_file {s : Store} {place : Location} (h : s.node? place ≠ some .directory)
    (content : ByteArray) :
    s.Keeps (s.put place (.file content)) ∧ (s.put place (.file content)).Keeps s := by
  have hput := s.node?_put (ne_nil_of_node?_ne h) (.file content)
  constructor
  · refine ⟨rfl, fun q hq => ?_⟩
    rw [hput, if_neg fun heq : q = place => h (heq ▸ hq), hq]
  · refine ⟨rfl, fun q hq => ?_⟩
    rw [hput] at hq
    split at hq
    · cases hq
    · exact hq

/-- A path leads where it did when a file has been put at a place that was free. -/
theorem locate_put_file {s : Store} {p : Path} {place q : Location} (h : s.node? place = none)
    (hlocate : s.locate p = .ok q) (content : ByteArray) :
    (s.put place (.file content)).locate p = .ok q :=
  (keeps_put_file (ne_directory_of_free h) content).1.locate hlocate

theorem put_put (s : Store) (place : Location) (n m : Node) :
    (s.put place n).put place m = s.put place m := by
  simp [put, List.filter_filter]

/-- Of what is written to a file, something comes to be there. -/
theorem write_put_file {s : Store} {p : Path} {place : Location} (h : s.node? place = none)
    (hlocate : s.locate p = .ok place) (before content : ByteArray) :
    (s.put place (.file before)).write p content = (true, s.put place (.file content)) := by
  have hnode : (s.put place (.file before)).node? place = some (.file before) := by
    rw [node?_put _ (ne_nil_of_node?_ne (ne_directory_of_free h)), if_pos rfl]
  simp only [write, locate_put_file h hlocate, hnode, put_put]

/-- To take away what is no directory makes no difference to directories. -/
theorem keeps_erase {s : Store} {place : Location} (h : s.node? place ≠ some .directory) :
    s.Keeps (s.erase place) := by
  refine ⟨rfl, fun q hq => ?_⟩
  rw [s.node?_erase (ne_nil_of_node?_ne h), if_neg fun heq : q = place => h (heq ▸ hq), hq]

/-- Writing a file makes no difference to directories. -/
theorem Written.keeps {s t : Store} {p : Path} {content : ByteArray} (h : s.Written p content t) :
    s.Keeps t := by
  obtain ⟨directory, name, -, -, hnode, halike⟩ := h
  exact (keeps_put_file hnode content).1.trans halike.furnished.grown.keeps

/-- What has been written is read. -/
theorem Written.read? {s t : Store} {p : Path} {content : ByteArray} (h : s.Written p content t) :
    t.read? p = some content := by
  obtain ⟨directory, name, hentry, hslash, hnode, halike⟩ := h
  have hfile : (s.put (name :: directory) (.file content)).read? p = some content := by
    refine (Store.read?_eq_some_iff _ p content).mpr
      ⟨_, (keeps_put_file hnode content).1.locate (locate_of_locateEntry hentry hslash).1, ?_⟩
    rw [node?_put s (List.cons_ne_nil name directory), if_pos rfl]
  exact halike.furnished.grown.read?_of_some hfile

/-- A file that is moved to a path comes to stand where that leads. -/
theorem replace_eq_some {s t : Store} {source : Location} {target : Path} {content : ByteArray}
    (hsource : s.node? source = some (.file content)) (h : s.replace source target = some t) :
    ∃ directory name, s.locateEntry target = .ok (directory, name) ∧
      target.text.toList.getLast? ≠ some '/' ∧ s.node? (name :: directory) ≠ some .directory ∧
      t = (s.erase source).put (name :: directory) (.file content) := by
  rw [replace, hsource] at h
  cases hentry : s.locateEntry target with
  | error e => simp [hentry] at h
  | ok entry =>
      obtain ⟨directory, name⟩ := entry
      simp only [hentry] at h
      split at h
      · cases h
      · split at h
        · cases h
        · rename_i hslash hdirectory
          refine ⟨directory, name, rfl, hslash, fun hnode => ?_, (Option.some.inj h).symm⟩
          rw [hnode] at hdirectory
          exact hdirectory rfl

/-- A file is moved by taking its place, or all stays. -/
theorem move_cases {s : Store} {source : Path} {place : Location}
    (h : s.locate source = .ok place) (target : Path) :
    s.move source target = (false, s) ∨
      ∃ t, s.replace place target = some t ∧ s.move source target = (true, t) := by
  simp only [move, h]
  cases s.replace place target with
  | none => exact .inl rfl
  | some t => exact .inr ⟨t, rfl, rfl⟩

theorem remove_of_locate {s : Store} {p : Path} {place : Location} (h : s.locate p = .ok place) :
    s.remove p = s.erase place := by
  simp only [remove, h]

end Store

namespace World

open Store

/-- The names of a place lead there. -/
theorem eq_of_locate_absolutePath {s : Store} {place q : Location} (hne : place ≠ [])
    (hnames : ∀ name ∈ place, isName name = true) (h : s.locate (absolutePath place) = .ok q) :
    q = place := by
  obtain ⟨-, hwalk⟩ := (s.locate_eq_ok_iff _ q).mp h
  have hslash : ∀ run ∈ place.reverse.map String.toList, '/' ∉ run := by
    intro run hrun
    obtain ⟨name, hname, rfl⟩ := List.mem_map.mp hrun
    exact not_mem_of_isName (hnames name (List.mem_reverse.mp hname))
  have htext : (absolutePath place).text.toList =
      '/' :: Text.join '/' (place.reverse.map String.toList) := by
    rw [absolutePath, String.toList_append, String.toList_intercalate]
    rfl
  -- The first component is the empty one before the slash, and the others are the names.
  have hcomponents : (absolutePath place).components = "" :: place.reverse := by
    rw [Path.components, htext, Text.split, if_pos rfl,
      Text.split_join (by simpa using hne) hslash, List.map_cons, List.map_map]
    simp [Function.comp_def]
  have hstart : s.start (absolutePath place) = [] := by
    rw [start, Path.isAbsolute, htext]
    rfl
  rw [hcomponents, hstart] at hwalk
  obtain ⟨-, next, hnext, hrest⟩ := (s.walk_cons_eq_ok_iff [] "" place.reverse q).mp hwalk
  obtain rfl : [] = next := Except.ok.inj hnext
  rw [eq_of_walk_names (fun name hname => hnames name (List.mem_reverse.mp hname)) hrest,
    List.reverse_reverse, List.append_nil]

-- ## Programs

/-- A program goes on where its first step has led. -/
theorem run_bind {α β : Type} {first : StateM World α} {next : α → StateM World β} {w v : World}
    {a : α} (h : first.run w = (a, v)) : (first >>= next).run w = (next a).run v := by
  rw [StateT.run_bind, h]
  rfl

/-- A change is made as a whole, or what there is of it where it stops. -/
theorem change_cases {α : Type} (w : World) (whole : α × Store) (stopped : Nat → α × Store) :
    ∃ made interruptions,
      w.change whole stopped = (made.1, { w with store := made.2, interruptions }) ∧
        (made = whole ∨ ∃ steps, made = stopped steps) := by
  refine ⟨_, _, rfl, ?_⟩
  split
  · exact .inr ⟨_, rfl⟩
  · exact .inl rfl

/-- Of a directory that is missing, some of those above it are created, and it may be
    itself. -/
theorem run_ensureDirectory (directory : Path) (w : World) : ∃ done t interruptions,
    (ensureDirectory directory : StateM World Bool).run w =
        (done, { w with store := t, interruptions }) ∧ w.store.Built directory t := by
  have hrun : (ensureDirectory directory : StateM World Bool).run w =
      if w.store.holds directory then (true, w)
      else w.change (w.store.createDirectories directory)
        fun more => (false, w.store.createAbove directory more) := by
    change (if w.store.holds directory then pure true
      else Machine.createDirectories directory : StateM World Bool).run w = _
    split
    · rfl
    · rfl
  rw [hrun]
  split
  · exact ⟨true, w.store, w.interruptions, rfl, .refl _ _⟩
  · obtain ⟨made, interruptions, hmade, hwhole | ⟨more, hstopped⟩⟩ := w.change_cases
      (w.store.createDirectories directory) fun more => (false, w.store.createAbove directory more)
    · exact ⟨_, _, _, hmade, hwhole ▸ built_createMissing _ _ _⟩
    · exact ⟨_, _, _, hmade, hstopped ▸ built_createAbove _ _ _⟩

/-- A new file stands at a place that was free, under a name that ends nothing that has
    been mentioned, and its path leads there. -/
theorem createFresh_cases {name : Nat → String} (hname : EndsApart name)
    (hnames : ∀ n, isName (name n) = true) {directory : Location}
    (hdirectory : ∀ n ∈ directory, isName n = true) (w : World) :
    w.createFresh directory name = (none, w.store) ∨
      ∃ n, w.store.node? (name n :: directory) = none ∧
        w.store.node? directory = some .directory ∧
        (∀ text ∈ w.mentioned, ¬(name n).toList <:+ text.toList) ∧
        w.store.locate (absolutePath (name n :: directory)) = .ok (name n :: directory) ∧
        w.createFresh directory name = (some (absolutePath (name n :: directory)),
          w.store.put (name n :: directory) (.file .empty)) := by
  rw [createFresh]
  cases hfresh : w.store.createFresh w.mentioned directory name with
  | none => exact .inl rfl
  | some made =>
      obtain ⟨hstands, rfl⟩ := createFresh_eq_some hfresh
      obtain ⟨n, hn, hfree, hunknown⟩ := w.store.exists_freshName w.mentioned directory hname
      have hplace : ∀ m ∈ name n :: directory, isName m = true :=
        List.forall_mem_cons.mpr ⟨hnames n, hdirectory⟩
      rw [hn]
      cases hpath : (w.store.put (name n :: directory) (.file .empty)).locate
          (absolutePath (name n :: directory)) with
      | error e => exact .inl (by simp only [hpath])
      | ok q =>
          obtain rfl := eq_of_locate_absolutePath (List.cons_ne_nil _ _) hplace hpath
          have hkeeps := (keeps_put_file (ne_directory_of_free hfree) .empty).2
          exact .inr ⟨n, hfree, hstands, hunknown, hkeeps.locate hpath, by simp only [hpath]⟩

theorem createFreshIn_cases {name : Nat → String} (hname : EndsApart name)
    (hnames : ∀ n, isName (name n) = true) (directory : Path) (w : World) :
    w.createFreshIn directory name = (none, w.store) ∨
      ∃ place, w.store.node? place = none ∧
        w.store.locate (absolutePath place) = .ok place ∧
        w.createFreshIn directory name =
          (some (absolutePath place), w.store.put place (.file .empty)) := by
  rw [createFreshIn]
  cases hlocate : w.store.locate directory with
  | error e => exact .inl rfl
  | ok inside =>
      exact (createFresh_cases hname hnames (isName_of_locate hlocate) w).imp_right
        fun ⟨n, hfree, _, _, hpath, hmade⟩ => ⟨name n :: inside, hfree, hpath, hmade⟩

/-- A temporary file stands at a place that was free, and its path leads there. -/
theorem run_createTemporary (directory : Path) (w : World) : ∃ interruptions,
    (Machine.createTemporary directory : StateM World (Option Path)).run w =
        (none, { w with interruptions }) ∨
      ∃ place, w.store.node? place = none ∧ w.store.locate (absolutePath place) = .ok place ∧
        (Machine.createTemporary directory : StateM World (Option Path)).run w =
          (some (absolutePath place),
            { w with store := w.store.put place (.file .empty), interruptions }) := by
  obtain ⟨made, interruptions, hrun, hmade⟩ := w.change_cases
    (w.createFreshIn directory temporaryName) fun _ => (none, w.store)
  refine ⟨interruptions, ?_⟩
  rcases hmade with hwhole | ⟨-, rfl⟩
  · rcases createFreshIn_cases endsApart_temporaryName isName_temporaryName directory w with
      hrefused | ⟨place, hfree, hpath, hfresh⟩
    · obtain rfl := hwhole.trans hrefused
      exact .inl hrun
    · obtain rfl := hwhole.trans hfresh
      exact .inr ⟨place, hfree, hpath, hrun⟩
  · exact .inl hrun

/-- Of what is written to a new file, all or the beginning comes to be in it. -/
theorem run_write {s : Store} {p : Path} {place : Location} {before : ByteArray} {w : World}
    (hfree : s.node? place = none) (hpath : s.locate p = .ok place)
    (hstore : w.store = s.put place (.file before)) (content : ByteArray) :
    ∃ done written interruptions, (Machine.write p content : StateM World Bool).run w =
        (done, { w with store := s.put place (.file written), interruptions }) ∧
      (done = true → written = content) := by
  obtain ⟨made, interruptions, hrun, hmade⟩ := w.change_cases (w.store.write p content)
    fun size => (false, (w.store.write p (content.extract 0 size)).2)
  simp only [hstore, write_put_file hfree hpath] at hmade
  rcases hmade with rfl | ⟨size, rfl⟩
  · exact ⟨_, _, _, hrun, fun _ => rfl⟩
  · exact ⟨_, _, _, hrun, nofun⟩

theorem run_sync (p : Path) (w : World) : ∃ done interruptions,
    (Machine.sync p : StateM World Bool).run w = (done, { w with interruptions }) := by
  obtain ⟨made, interruptions, hrun, rfl | ⟨-, rfl⟩⟩ :=
    w.change_cases (w.store.isFile p, w.store) fun _ => (false, w.store)
  · exact ⟨_, _, hrun⟩
  · exact ⟨_, _, hrun⟩

/-- A file is moved, or it stays. -/
theorem run_replace {source : Path} {place : Location} {w : World}
    (h : w.store.locate source = .ok place) (target : Path) : ∃ interruptions,
    (Machine.replace source target : StateM World Bool).run w =
        (false, { w with interruptions }) ∨
      ∃ t, w.store.replace place target = some t ∧
        (Machine.replace source target : StateM World Bool).run w =
          (true, { w with store := t, interruptions }) := by
  obtain ⟨made, interruptions, hrun, hmade⟩ :=
    w.change_cases (w.store.move source target) fun _ => (false, w.store)
  refine ⟨interruptions, ?_⟩
  rcases hmade with hwhole | ⟨-, rfl⟩
  · rcases move_cases h target with hstays | ⟨t, hmoved, hmove⟩
    · obtain rfl := hwhole.trans hstays
      exact .inl hrun
    · obtain rfl := hwhole.trans hmove
      exact .inr ⟨t, hmoved, hrun⟩
  · exact .inl hrun

/-- A temporary file that becomes another one is gone. -/
theorem written_of_replace {s t : Store} {place : Location} {path : Path} {content : ByteArray}
    (hplace : s.node? place = none)
    (h : (s.put place (.file content)).replace place path = some t) : s.Written path content t := by
  have hne : place ≠ [] := ne_nil_of_node?_ne (ne_directory_of_free hplace)
  have hput := s.node?_put hne (.file content)
  obtain ⟨directory, name, hentry, hslash, hnode, rfl⟩ :=
    replace_eq_some (by rw [hput, if_pos rfl]) h
  have hkeeps := (keeps_put_file (ne_directory_of_free hplace) content).2
  have htarget : s.node? (name :: directory) ≠ some .directory := by
    rw [hput] at hnode
    split at hnode
    · rename_i heq
      rw [heq]
      exact ne_directory_of_free hplace
    · exact hnode
  refine ⟨directory, name, hkeeps.locateEntry hentry, hslash, htarget, rfl, rfl, fun q => ?_⟩
  -- Elsewhere nothing has changed: the place of the temporary file is as free as it was.
  rw [node?_put _ (List.cons_ne_nil _ _), node?_put _ (List.cons_ne_nil _ _),
    node?_erase _ hne, hput]
  by_cases hq : q = place
  · simp only [hq, if_true, hplace]
  · simp only [if_neg hq]

/-- A temporary file that is removed is gone. -/
theorem alike_erase_put {s : Store} {place : Location} (hplace : s.node? place = none) (n : Node) :
    s.Alike ((s.put place n).erase place) := by
  have hne : place ≠ [] := ne_nil_of_node?_ne (ne_directory_of_free hplace)
  refine ⟨rfl, rfl, fun q => ?_⟩
  rw [node?_erase _ hne, node?_put _ hne]
  by_cases hq : q = place
  · rw [if_pos hq, hq, hplace]
  · rw [if_neg hq, if_neg hq]

theorem run_remove {p : Path} {place : Location} {w : World} (h : w.store.locate p = .ok place) :
    (Machine.remove p : StateM World Unit).run w =
      ((), { w with store := w.store.erase place }) := by
  rw [← remove_of_locate h]
  rfl

/-- A temporary file becomes the file that is to be written, or it is still there. -/
theorem run_fillAndReplace {s : Store} {temporary : Path} {place : Location}
    {before : ByteArray} {w : World} (hfree : s.node? place = none)
    (hpath : s.locate temporary = .ok place) (hstore : w.store = s.put place (.file before))
    (path : Path) (content : ByteArray) :
    ∃ result t interruptions,
      (fillAndReplace temporary path content : StateM World (Except SaveError Unit)).run w =
        (result, { w with store := t, interruptions }) ∧
      match result with
      | .ok _ => s.Written path content t
      | .error _ => ∃ left, t = s.put place (.file left) := by
  obtain ⟨done, written, later, hwrite, hwritten⟩ := run_write hfree hpath hstore content
  -- Until the file is moved, nothing but its content changes.
  cases done with
  | false => exact ⟨_, _, _, run_bind hwrite, written, rfl⟩
  | true =>
      obtain rfl := hwritten rfl
      obtain ⟨done, later, hsync⟩ := run_sync temporary
        { w with store := s.put place (.file written), interruptions := later }
      cases done with
      | false => exact ⟨_, _, _, (run_bind hwrite).trans (run_bind hsync), written, rfl⟩
      | true =>
          obtain ⟨later, hreplace | ⟨t, hmoved, hreplace⟩⟩ := run_replace
            (w := { w with store := s.put place (.file written), interruptions := later })
            (locate_put_file hfree hpath written) path
          · exact ⟨_, _, _, (run_bind hwrite).trans ((run_bind hsync).trans (run_bind hreplace)),
              written, rfl⟩
          · exact ⟨_, t, _, (run_bind hwrite).trans ((run_bind hsync).trans (run_bind hreplace)),
              written_of_replace hfree hmoved⟩

/-- A file is written, or nothing happens to files. -/
theorem run_writeAtomically (path : Path) (content : ByteArray) (w : World) :
    ∃ result t u interruptions,
      (writeAtomically path content : StateM World (Except Failure Unit)).run w =
        (result, { w with store := u, interruptions }) ∧
      w.store.Built (directoryOf path) t ∧
      match result with
      | .ok _ => t.Written path content u
      | .error _ => t.Alike u := by
  obtain ⟨done, t, later, hensure, hbuilt⟩ := run_ensureDirectory (directoryOf path) w
  -- From here on the directories stand, and every step that fails undoes what came before it.
  cases done with
  | false => exact ⟨_, t, t, _, run_bind hensure, hbuilt, .refl t⟩
  | true =>
      obtain ⟨later, hnone | ⟨place, hfree, hpath, hsome⟩⟩ :=
        run_createTemporary (directoryOf path) { w with store := t, interruptions := later }
      · exact ⟨_, t, t, _, (run_bind hensure).trans (run_bind hnone), hbuilt, .refl t⟩
      · obtain ⟨result, u, later, hfill, hfilled⟩ := run_fillAndReplace
          (w := { w with store := t.put place (.file .empty), interruptions := later })
          hfree hpath rfl path content
        cases result with
        | ok done =>
            exact ⟨_, t, u, _, (run_bind hensure).trans ((run_bind hsome).trans (run_bind hfill)),
              hbuilt, hfilled⟩
        | error e =>
            obtain ⟨left, rfl⟩ := hfilled
            have hremove := run_remove
              (w := { w with store := t.put place (.file left), interruptions := later })
              (locate_put_file hfree hpath left)
            exact ⟨_, t, _, _, (run_bind hensure).trans ((run_bind hsome).trans
              ((run_bind hfill).trans (run_bind hremove))), hbuilt, alike_erase_put hfree _⟩

/-- Where writing stops after two bytes, the file is as it was and nothing stands beside
    it. -/
example :
    let w : World :=
      { store := .ofNodes [(["a"], .file "old".toUTF8)], interruptions := [none, some 2] }
    ∃ v, (writeTextAtomically ⟨"a"⟩ "new" : StateM World (Except Failure Unit)).run w =
        (.error (.save .temporaryWrite), v) ∧
      v.store.read? ⟨"a"⟩ = some "old".toUTF8 ∧ v.store.nodes.length = 1 :=
  ⟨_, rfl, rfl, rfl⟩

end World

end SimStudio
