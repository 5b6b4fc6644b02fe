import Mathlib.Data.List.Basic
import SimStudio.Proofs.Text.Runs
import SimStudio.Store

/-!
# Where Paths Lead

How a path is followed depends on the directories of a tree only. So whatever
keeps the directories keeps the ways: a path that leads somewhere still leads
there (`Keeps.locate`). Files may come and go meanwhile.

The names on a way are names: none of them is empty, leads upward, or holds a
slash. A way that is made of names leads down, and so to the place with these
names (`eq_of_walk_names`).

## Main definitions

* `Store.advance`: Where a single component leads.
* `Store.Keeps`: One tree has all directories of another.
* `Path.IsChild`: A path is that of an entry of a directory.
* `Store.LeadsTo`: A path leads to a directory.

## Theorems

* `Path.components_join`: The components of a path below another one.
* `Path.isChild_join`: Below a directory, a name is that of an entry.
* `Store.node?_put`, `Store.node?_erase`: What a change of a tree changes.
* `Store.Keeps.locate`: Ways are kept with directories.
* `Store.locate_of_locateEntry`: Where something can be put, the path leads.
* `Store.locate_of_entry`: To a directory its path leads, however many slashes it ends
  with.
* `Store.suffix_of_locateEntry`, `Store.exists_of_locate_join`: What a path below another one
  leads to is called as it ends.
* `Store.leadsTo_of_locate_join`: It is an entry of what the other one leads to.
* `Store.isName_of_locate`: There are names only on a way.
* `Store.eq_of_walk_names`: Names lead down.
-/

namespace SimStudio

theorem not_mem_of_isName {name : String} (h : isName name = true) : '/' ∉ name.toList := by
  simp only [isName, Bool.and_eq_true, Bool.not_eq_true', List.contains_eq_mem,
    decide_eq_false_iff_not] at h
  exact h.2

theorem Path.isAbsolute_of_isName {name : String} (h : isName name = true) :
    (mk name).isAbsolute = false :=
  beq_eq_false_iff_ne.mpr fun hhead => not_mem_of_isName h (List.mem_of_mem_head? hhead)

/-- A name is the only component of its path. -/
theorem Path.components_of_isName {name : String} (h : isName name = true) :
    (mk name).components = [name] := by
  rw [components, Text.split_eq_singleton (not_mem_of_isName h), List.map_singleton,
    String.ofList_toList]

/-- The last component of a path is empty only behind a slash. -/
theorem Path.ne_empty_of_getLast? {p : Path} (hslash : p.text.toList.getLast? ≠ some '/')
    (hempty : p.text.toList ≠ []) {last : String} (h : p.components.getLast? = some last) :
    last ≠ "" := by
  rintro rfl
  rw [components, List.getLast?_map, Option.map_eq_some_iff] at h
  obtain ⟨run, hrun, hname⟩ := h
  obtain rfl : run = [] := by
    rw [← String.toList_ofList (l := run), hname]
    rfl
  rw [← List.dropLast_concat_getLast hempty, List.getLast?_concat] at hslash
  rw [← List.dropLast_concat_getLast hempty] at hrun
  exact Text.getLast?_split_concat (fun heq => hslash (congrArg some heq)) _ hrun

/-- The components of a relative path below another one are those of both, but for an empty
    one behind a slash at the end of the other. -/
theorem Path.components_join_relative {p : Path} {q : String} (hne : p.text ≠ "")
    (hq : (Path.mk q).isAbsolute = false) : ∃ lead slash, p.components = lead ++ slash ∧
      (slash = [] ∨ slash = [""]) ∧ (p.join q).components = lead ++ (Path.mk q).components := by
  rw [join, hq, Bool.false_or, if_neg (mt String.isEmpty_iff.mp hne)]
  by_cases hslash : (p.text.toList.getLast? == some '/') = true
  · rw [if_pos hslash]
    obtain ⟨above, habove⟩ := List.getLast?_eq_some_iff.mp (eq_of_beq hslash)
    refine ⟨(Text.split '/' above).map String.ofList, [""], ?_, .inr rfl, ?_⟩
    · rw [components, habove, Text.split_append, List.map_append]
      rfl
    · rw [components, components, String.toList_append, habove, List.append_assoc,
        List.singleton_append, Text.split_append, List.map_append]
  · rw [if_neg hslash]
    refine ⟨p.components, [], (List.append_nil _).symm, .inl rfl, ?_⟩
    rw [components, components, components, String.toList_append, String.toList_append,
      List.append_assoc, ← List.map_append, ← Text.split_append]
    rfl

/-- The components of a path below another one are those of both, but for empty ones
    between them. -/
theorem Path.components_join (p : Path) (q : String) : ∃ lead, lead <+: p.components ∧
    (p.join q).components = lead ++ (Path.mk q).components := by
  by_cases habsolute : ((Path.mk q).isAbsolute || p.text.isEmpty) = true
  · rw [join, if_pos habsolute]
    exact ⟨[], List.nil_prefix, rfl⟩
  · rw [Bool.not_eq_true, Bool.or_eq_false_iff] at habsolute
    have hne : p.text ≠ "" := by
      intro hempty
      rw [hempty] at habsolute
      cases habsolute.2
    obtain ⟨lead, slash, hp, -, hjoin⟩ := components_join_relative hne habsolute.1
    exact ⟨lead, ⟨slash, hp.symm⟩, hjoin⟩

/-- What is no path from the root is below another path. -/
theorem Path.isAbsolute_join {q : String} (hq : (Path.mk q).isAbsolute = false) (p : Path) :
    (p.join q).isAbsolute = p.isAbsolute := by
  rw [join, hq, Bool.false_or]
  by_cases hempty : p.text.isEmpty = true
  · have htext : p.text.toList = [] := String.toList_eq_nil_iff.mpr (String.isEmpty_iff.mp hempty)
    rw [if_pos hempty, hq, isAbsolute, htext]
    rfl
  · obtain ⟨c, cs, htext⟩ : ∃ c cs, p.text.toList = c :: cs :=
      List.exists_cons_of_ne_nil fun hnil =>
        hempty (String.isEmpty_iff.mpr (String.toList_eq_nil_iff.mp hnil))
    rw [if_neg hempty]
    split
    · rw [isAbsolute, isAbsolute, String.toList_append, htext]
      rfl
    · rw [isAbsolute, isAbsolute, String.toList_append, String.toList_append, htext]
      rfl

-- ## Entries of a directory

/-- The components of a path that say something. -/
def Path.names (p : Path) : List String := p.components.filter fun name => !isSilent name.toList

/-- A path is that of an entry of a directory, if a name is all that it adds. -/
structure Path.IsChild (directory : Path) (name : String) (p : Path) : Prop where
  isName : SimStudio.isName name = true
  isAbsolute : p.isAbsolute = directory.isAbsolute
  names : p.names = directory.names ++ [name]

theorem Path.isSilent_of_isName {name : String} (h : SimStudio.isName name = true) :
    isSilent name.toList = false := by
  simp only [SimStudio.isName, bne_iff_ne, Bool.and_eq_true] at h
  rw [isSilent, Bool.or_eq_false_iff, beq_eq_false_iff_ne, beq_eq_false_iff_ne]
  exact ⟨fun heq => h.1.1.1 (String.toList_inj.mp heq),
    fun heq => h.1.1.2 (String.toList_inj.mp heq)⟩

/-- Below a directory, a name is behind the components of the directory, but for an empty
    one behind a slash at its end. -/
theorem Path.components_join_name {name : String} (hname : SimStudio.isName name = true)
    (directory : Path) :
    directory.text = "" ∧ (directory.join name).components = [name] ∨
      directory.text ≠ "" ∧ ∃ lead slash, directory.components = lead ++ slash ∧
        (slash = [] ∨ slash = [""]) ∧ (directory.join name).components = lead ++ [name] := by
  have hcomponents := Path.components_of_isName hname
  by_cases hempty : directory.text = ""
  · refine .inl ⟨hempty, ?_⟩
    rw [join, String.isEmpty_iff.mpr hempty, Bool.or_true, if_pos rfl, hcomponents]
  · obtain ⟨lead, slash, hdirectory, hslash, hjoin⟩ :=
      components_join_relative hempty (isAbsolute_of_isName hname)
    rw [hcomponents] at hjoin
    exact .inr ⟨hempty, lead, slash, hdirectory, hslash, hjoin⟩

/-- Below a directory, a name is that of an entry. -/
theorem Path.isChild_join {name : String} (h : SimStudio.isName name = true) (directory : Path) :
    directory.IsChild name (directory.join name) := by
  have hname : [name].filter (fun name => !isSilent name.toList) = [name] :=
    List.filter_cons_of_pos (by rw [isSilent_of_isName h]; rfl)
  refine ⟨h, isAbsolute_join (isAbsolute_of_isName h) directory, ?_⟩
  unfold names
  rcases components_join_name h directory with
    ⟨hempty, hjoin⟩ | ⟨-, lead, slash, hcomponents, hslash, hjoin⟩
  · have hnone : directory.components = [""] := by
      rw [components, hempty]
      rfl
    rw [hjoin, hnone, hname]
    rfl
  · rw [hjoin, hcomponents, List.filter_append, List.filter_append, hname]
    rcases hslash with rfl | rfl
    · rw [List.filter_nil, List.append_nil]
    · exact congrArg (· ++ [name]) (List.append_nil _).symm

namespace Store

-- ## Changes

theorem lookup_filter_ne (nodes : List (Location × Node)) (place q : Location) :
    (nodes.filter (·.1 != place)).lookup q = if q = place then none else nodes.lookup q := by
  induction nodes with
  | nil => simp
  | cons m rest ih =>
      obtain ⟨here, n⟩ := m
      by_cases hhere : here = place
      · subst hhere
        rw [List.filter_cons_of_neg (by simp), ih]
        by_cases hq : q = here
        · rw [if_pos hq, if_pos hq]
        · rw [if_neg hq, if_neg hq, List.lookup_cons, beq_eq_false_iff_ne.mpr hq]
      · rw [List.filter_cons_of_pos (by simpa using hhere), List.lookup_cons, List.lookup_cons, ih]
        by_cases hq : q = here
        · subst hq
          simp only [beq_self_eq_true, if_neg hhere]
        · simp only [beq_eq_false_iff_ne.mpr hq]

/-- What is put somewhere stands there, and all else stands where it stood. -/
theorem node?_put (s : Store) {place : Location} (hplace : place ≠ []) (n : Node) (q : Location) :
    (s.put place n).node? q = if q = place then some n else s.node? q := by
  rw [node?, node?, put]
  by_cases hq : q = place
  · rw [if_pos hq, if_neg (hq ▸ hplace), List.lookup_cons, hq, beq_self_eq_true]
  · rw [if_neg hq, List.lookup_cons, beq_eq_false_iff_ne.mpr hq, lookup_filter_ne, if_neg hq]

/-- What is taken away is gone, and all else stands where it stood. -/
theorem node?_erase (s : Store) {place : Location} (hplace : place ≠ []) (q : Location) :
    (s.erase place).node? q = if q = place then none else s.node? q := by
  rw [node?, node?, erase, lookup_filter_ne]
  by_cases hq : q = place
  · rw [if_pos hq, if_neg (hq ▸ hplace), if_pos hq]
  · rw [if_neg hq, if_neg hq]

theorem node?_nil (s : Store) : s.node? [] = some .directory := if_pos rfl

-- ## Ways

theorem enter_eq_ok_iff (s : Store) (place : Location) :
    s.enter place = .ok () ↔ s.node? place = some .directory := by
  rw [enter]
  cases s.node? place with
  | none => simp
  | some n => cases n <;> simp

/-- Where a single component leads from a directory. -/
def advance (place : Location) (name : String) : Except Obstacle Location :=
  if name = "" ∨ name = "." then .ok place
  else if name = ".." then .ok place.tail
  else if isTooLong name then .error .inTheWay
  else .ok (name :: place)

/-- A name leads down. -/
theorem advance_of_isName {place next : Location} {name : String} (hname : isName name = true)
    (h : advance place name = .ok next) : next = name :: place := by
  simp only [isName, Bool.and_eq_true, bne_iff_ne] at hname
  obtain ⟨⟨⟨hempty, hpoint⟩, hup⟩, -⟩ := hname
  rw [advance, if_neg (not_or.mpr ⟨hempty, hpoint⟩), if_neg hup] at h
  split at h
  · cases h
  · exact (Except.ok.inj h).symm

/-- Only two points lead up. -/
theorem suffix_of_advance {place next : Location} {name : String} (hname : name ≠ "..")
    (h : advance place name = .ok next) : place <:+ next := by
  unfold advance at h
  split at h
  · cases h
    exact List.suffix_rfl
  · split at h
    · cases h
    · cases h
      exact List.suffix_cons name place

theorem walk_cons (s : Store) (place : Location) (name : String) (rest : List String) :
    s.walk place (name :: rest) =
      s.enter place >>= fun _ => advance place name >>= fun next => s.walk next rest := by
  rw [walk, advance]
  cases s.enter place with
  | error e => rfl
  | ok u =>
      change (if name = "" ∨ name = "." then _ else _) =
        (if name = "" ∨ name = "." then _ else _) >>= _
      split
      · rfl
      · split
        · rfl
        · split
          · rfl
          · rfl

/-- A way that goes on begins in a directory. -/
theorem walk_cons_eq_ok_iff (s : Store) (place : Location) (name : String) (rest : List String)
    (q : Location) : s.walk place (name :: rest) = .ok q ↔ s.node? place = some .directory ∧
      ∃ next, advance place name = .ok next ∧ s.walk next rest = .ok q := by
  rw [walk_cons, ← s.enter_eq_ok_iff]
  cases s.enter place with
  | error e => simp [bind, Except.bind]
  | ok u =>
      cases advance place name with
      | error e => simp [bind, Except.bind]
      | ok next => simp [bind, Except.bind]

theorem walk_append (s : Store) (place : Location) (xs ys : List String) :
    s.walk place (xs ++ ys) = s.walk place xs >>= fun q => s.walk q ys := by
  induction xs generalizing place with
  | nil => rfl
  | cons name rest ih =>
      rw [List.cons_append, walk_cons, walk_cons]
      cases s.enter place with
      | error e => rfl
      | ok u =>
          cases advance place name with
          | error e => rfl
          | ok next => exact ih next

theorem admits_eq_ok_iff (p : Path) : admits p = .ok () ↔
    p.text ≠ "" ∧ '\x00' ∉ p.text.toList ∧ p.text.utf8ByteSize ≤ 4095 := by
  rw [admits]
  by_cases hempty : p.text = ""
  · rw [if_pos (String.isEmpty_iff.mpr hempty)]
    constructor
    · intro h
      cases h
    · intro h
      exact absurd hempty h.1
  · rw [if_neg (mt String.isEmpty_iff.mp hempty)]
    simp [hempty]

theorem toList_ne_nil_of_admits {p : Path} (h : admits p = .ok ()) : p.text.toList ≠ [] :=
  mt String.toList_eq_nil_iff.mp ((admits_eq_ok_iff p).mp h).1

theorem locate_eq_ok_iff (s : Store) (p : Path) (place : Location) :
    s.locate p = .ok place ↔
      admits p = .ok () ∧ s.walk (s.start p) p.components = .ok place := by
  rw [locate]
  cases admits p with
  | error e => simp [bind, Except.bind]
  | ok u => simp [bind, Except.bind]

theorem locateEntry_eq_ok_iff (s : Store) (p : Path) (directory : Location) (name : String) :
    s.locateEntry p = .ok (directory, name) ↔ admits p = .ok () ∧
      ∃ before, p.components.reverse.dropWhile (· == "") = name :: before ∧
        s.walk (s.start p) before.reverse = .ok directory ∧ s.node? directory = some .directory ∧
        ¬(name = "." ∨ name = ".." ∨ isTooLong name) := by
  rw [locateEntry]
  cases admits p with
  | error e => simp [bind, Except.bind]
  | ok u =>
      cases p.components.reverse.dropWhile (· == "") with
      | nil => simp [bind, Except.bind]
      | cons last before =>
          -- Step by step: where the search ends, the condition fails at the same point.
          cases hwalk : s.walk (s.start p) before.reverse with
          | error e => simp [bind, Except.bind, hwalk]
          | ok q =>
              have henter := s.enter_eq_ok_iff q
              cases hq : s.enter q with
              | error e =>
                  rw [hq] at henter
                  have hnot : s.node? q ≠ some .directory := fun h => nomatch henter.mpr h
                  simp only [bind, Except.bind, hwalk, hq, reduceCtorEq, false_iff]
                  rintro ⟨-, before', hbefore, hwalk', hdirectory, -⟩
                  obtain ⟨-, rfl⟩ := List.cons.inj hbefore
                  obtain rfl := Except.ok.inj (hwalk.symm.trans hwalk')
                  exact hnot hdirectory
              | ok u =>
                  have hdirectory := henter.mp hq
                  by_cases hbad : last = "." ∨ last = ".." ∨ isTooLong last
                  · simp only [bind, Except.bind, hwalk, hq, if_pos hbad, reduceCtorEq, false_iff]
                    rintro ⟨-, before', hbefore, -, -, hgood⟩
                    obtain ⟨rfl, -⟩ := List.cons.inj hbefore
                    exact hgood hbad
                  · simp only [bind, Except.bind, hwalk, hq, if_neg hbad, Except.ok.injEq,
                      Prod.mk.injEq, true_and]
                    constructor
                    · rintro ⟨rfl, rfl⟩
                      exact ⟨before, rfl, hwalk, hdirectory, hbad⟩
                    · rintro ⟨before', hbefore, hwalk', -, -⟩
                      obtain ⟨rfl, rfl⟩ := List.cons.inj hbefore
                      exact ⟨Except.ok.inj (hwalk.symm.trans hwalk'), rfl⟩

/-- A file is read where its path leads. -/
theorem read?_eq_some_iff (s : Store) (p : Path) (content : ByteArray) : s.read? p = some content ↔
    ∃ place, s.locate p = .ok place ∧ s.node? place = some (.file content) := by
  rw [read?, get?]
  cases s.locate p with
  | error e => simp
  | ok place =>
      cases hnode : s.node? place with
      | none => simp [hnode]
      | some n => cases n <;> simp [hnode]

/-- Something stands where its path leads. -/
theorem holds_iff (s : Store) (p : Path) : s.holds p = true ↔
    ∃ place, s.locate p = .ok place ∧ s.node? place ≠ none := by
  rw [holds, get?]
  cases s.locate p with
  | error e => simp
  | ok place => simp [Option.isSome_iff_ne_none]

theorem holds_of_read? {s : Store} {p : Path} {content : ByteArray}
    (h : s.read? p = some content) : s.holds p = true := by
  obtain ⟨place, hlocate, hnode⟩ := (s.read?_eq_some_iff p content).mp h
  refine (s.holds_iff p).mpr ⟨place, hlocate, ?_⟩
  rw [hnode]
  exact Option.some_ne_none _

/-- `t` has all directories of `s`, and paths start at the same place. -/
structure Keeps (s t : Store) : Prop where
  start : t.workingDirectory = s.workingDirectory
  directory : ∀ place, s.node? place = some .directory → t.node? place = some .directory

namespace Keeps

variable {s t u : Store}

theorem trans (h : s.Keeps t) (h' : t.Keeps u) : s.Keeps u :=
  ⟨h'.start.trans h.start, fun place hplace => h'.directory place (h.directory place hplace)⟩

theorem walk (h : s.Keeps t) {place q : Location} {names : List String}
    (hs : s.walk place names = .ok q) : t.walk place names = .ok q := by
  -- Every step of the way asks for a directory only, and those are kept.
  induction names generalizing place with
  | nil => exact hs
  | cons name rest ih =>
      obtain ⟨hplace, next, hnext, hrest⟩ := (s.walk_cons_eq_ok_iff place name rest q).mp hs
      exact (t.walk_cons_eq_ok_iff place name rest q).mpr
        ⟨h.directory place hplace, next, hnext, ih hrest⟩

theorem start_eq (h : s.Keeps t) (p : Path) : t.start p = s.start p := by
  rw [Store.start, Store.start, h.start]

/-- A path that leads somewhere still leads there. -/
theorem locate (h : s.Keeps t) {p : Path} {place : Location} (hs : s.locate p = .ok place) :
    t.locate p = .ok place := by
  obtain ⟨hadmits, hwalk⟩ := (s.locate_eq_ok_iff p place).mp hs
  refine (t.locate_eq_ok_iff p place).mpr ⟨hadmits, ?_⟩
  rw [h.start_eq]
  exact h.walk hwalk

/-- Where something can be put, it still can. -/
theorem locateEntry (h : s.Keeps t) {p : Path} {directory : Location} {name : String}
    (hs : s.locateEntry p = .ok (directory, name)) : t.locateEntry p = .ok (directory, name) := by
  obtain ⟨hadmits, before, hlast, hwalk, hdirectory, hname⟩ :=
    (s.locateEntry_eq_ok_iff p directory name).mp hs
  refine (t.locateEntry_eq_ok_iff p directory name).mpr
    ⟨hadmits, before, hlast, ?_, h.directory directory hdirectory, hname⟩
  rw [h.start_eq]
  exact h.walk hwalk

end Keeps

-- ## Places and their paths

theorem advance_of_entry {directory : Location} {name : String} (hempty : name ≠ "")
    (hname : ¬(name = "." ∨ name = ".." ∨ isTooLong name)) :
    advance directory name = .ok (name :: directory) := by
  obtain ⟨hpoint, hup, hlong⟩ : name ≠ "." ∧ name ≠ ".." ∧ ¬isTooLong name := by
    simpa only [not_or] using hname
  rw [advance, if_neg (not_or.mpr ⟨hempty, hpoint⟩), if_neg hup, if_neg hlong]

/-- Where something can be put, the path ends with its name, unless a slash at its end
    asks for a directory. -/
theorem components_of_locateEntry {s : Store} {p : Path} {directory : Location} {name : String}
    (h : s.locateEntry p = .ok (directory, name)) (hslash : p.text.toList.getLast? ≠ some '/') :
    ∃ before, p.components = before ++ [name] ∧ s.walk (s.start p) before = .ok directory ∧
      name ≠ "" := by
  obtain ⟨hadmits, before, hlast, hwalk, -, -⟩ := (s.locateEntry_eq_ok_iff p directory name).mp h
  -- The last component is not empty, so none has been skipped.
  cases hreversed : p.components.reverse with
  | nil =>
      rw [hreversed] at hlast
      cases hlast
  | cons last rest =>
      have hlast' : p.components.getLast? = some last := by
        rw [← List.head?_reverse, hreversed]
        rfl
      have hne : last ≠ "" :=
        Path.ne_empty_of_getLast? hslash (toList_ne_nil_of_admits hadmits) hlast'
      rw [hreversed, List.dropWhile_cons_of_neg (by simpa using hne)] at hlast
      obtain ⟨rfl, rfl⟩ := List.cons.inj hlast
      refine ⟨rest.reverse, ?_, hwalk, hne⟩
      rw [← List.reverse_reverse p.components, hreversed, List.reverse_cons]

/-- Where something can be put, the path leads, unless a slash at its end asks for a
    directory. -/
theorem locate_of_locateEntry {s : Store} {p : Path} {directory : Location} {name : String}
    (h : s.locateEntry p = .ok (directory, name)) (hslash : p.text.toList.getLast? ≠ some '/') :
    s.locate p = .ok (name :: directory) ∧ s.node? directory = some .directory := by
  obtain ⟨hadmits, -, -, -, hdirectory, hname⟩ := (s.locateEntry_eq_ok_iff p directory name).mp h
  obtain ⟨before, hcomponents, hwalk, hempty⟩ := components_of_locateEntry h hslash
  refine ⟨(s.locate_eq_ok_iff p _).mpr ⟨hadmits, ?_⟩, hdirectory⟩
  rw [hcomponents, walk_append, hwalk]
  exact (s.walk_cons_eq_ok_iff directory name [] _).mpr
    ⟨hdirectory, _, advance_of_entry hempty hname, rfl⟩

/-- Slashes at the end lead nowhere else. -/
theorem walk_silent {s : Store} {place : Location} (hplace : s.node? place = some .directory)
    {names : List String} (hnames : ∀ name ∈ names, name = "") :
    s.walk place names = .ok place := by
  induction names with
  | nil => rfl
  | cons name rest ih =>
      obtain rfl := hnames name List.mem_cons_self
      refine (s.walk_cons_eq_ok_iff place "" rest _).mpr ⟨hplace, place, rfl, ?_⟩
      exact ih fun n hn => hnames n (List.mem_cons_of_mem _ hn)

/-- To a directory its path leads, with slashes at its end as well. -/
theorem locate_of_entry {s : Store} {p : Path} {directory : Location} {name : String}
    (h : s.locateEntry p = .ok (directory, name))
    (hhere : s.node? (name :: directory) = some .directory) :
    s.locate p = .ok (name :: directory) := by
  obtain ⟨hadmits, before, hlast, hwalk, hdirectory, hname⟩ :=
    (s.locateEntry_eq_ok_iff p directory name).mp h
  -- What has been dropped from the reversed components stands behind the name.
  have hcomponents : p.components = before.reverse ++
      name :: (p.components.reverse.takeWhile (· == "")).reverse := by
    have happend : p.components.reverse.takeWhile (· == "") ++ name :: before =
        p.components.reverse := by rw [← hlast, List.takeWhile_append_dropWhile]
    have hreversed := congrArg List.reverse happend
    rw [List.reverse_reverse, List.reverse_append, List.reverse_cons, List.append_assoc,
      List.singleton_append] at hreversed
    exact hreversed.symm
  have hempty : name ≠ "" := by
    have hhead := List.head?_dropWhile_not (· == "") p.components.reverse
    rw [hlast] at hhead
    simpa using hhead
  refine (s.locate_eq_ok_iff p _).mpr ⟨hadmits, ?_⟩
  rw [hcomponents, walk_append, hwalk]
  refine (s.walk_cons_eq_ok_iff directory name _ _).mpr
    ⟨hdirectory, _, advance_of_entry hempty hname, walk_silent hhere fun n hn => ?_⟩
  exact eq_of_beq (List.all_eq_true.mp List.all_takeWhile n (List.mem_reverse.mp hn))

theorem isName_of_advance {place next : Location} {name : String}
    (h : advance place name = .ok next) (hplace : ∀ n ∈ place, isName n = true)
    (hslash : '/' ∉ name.toList) : ∀ n ∈ next, isName n = true := by
  unfold advance at h
  split at h
  · cases h
    exact hplace
  · rename_i hsilent
    split at h
    · cases h
      exact fun n hn => hplace n (List.mem_of_mem_tail hn)
    · rename_i hup
      split at h
      · cases h
      · cases h
        refine List.forall_mem_cons.mpr ⟨?_, hplace⟩
        simp [isName, not_or.mp hsilent, hup, hslash]

/-- The name under which something can be put is the end of the path. -/
theorem suffix_of_locateEntry {s : Store} {p : Path} {q : String} {directory : Location}
    {name : String} (h : s.locateEntry (p.join q) = .ok (directory, name))
    (hslash : (p.join q).text.toList.getLast? ≠ some '/') : name.toList <:+ q.toList := by
  obtain ⟨before, hcomponents, -, -⟩ := components_of_locateEntry h hslash
  obtain ⟨lead, -, hjoin⟩ := p.components_join q
  have hlast : (Path.mk q).components.getLast? = some name := by
    have hne : (Path.mk q).components ≠ [] := by
      rw [Path.components, Ne, List.map_eq_nil_iff]
      exact Text.split_ne_nil '/' q.toList
    rw [← List.getLast?_append_of_ne_nil lead hne, ← hjoin, hcomponents, List.getLast?_concat]
  rw [Path.components, List.getLast?_map, Option.map_eq_some_iff] at hlast
  obtain ⟨run, hrun, rfl⟩ := hlast
  rw [String.toList_ofList]
  exact Text.suffix_of_getLast?_split hrun

/-- A path leads to a directory. The empty one does not say where to go and leads nowhere
    else than where paths start. -/
def LeadsTo (s : Store) (directory : Path) (place : Location) : Prop :=
  s.node? place = some .directory ∧
    if directory.text = "" then place = s.workingDirectory else s.locate directory = .ok place

/-- What admits a path below a directory admits the directory. -/
theorem admits_of_join {directory : Path} {name : String} (hempty : directory.text ≠ "")
    (hname : isName name = true) (h : admits (directory.join name) = .ok ()) :
    admits directory = .ok () := by
  obtain ⟨rest, htext⟩ : ∃ rest, (directory.join name).text = directory.text ++ rest := by
    rw [Path.join, Path.isAbsolute_of_isName hname, Bool.false_or,
      if_neg (mt String.isEmpty_iff.mp hempty)]
    split
    · exact ⟨name, rfl⟩
    · exact ⟨"/" ++ name, String.append_assoc⟩
  obtain ⟨-, hnull, hsize⟩ := (admits_eq_ok_iff _).mp h
  rw [htext, String.toList_append, List.mem_append, not_or] at hnull
  rw [htext, String.utf8ByteSize_append] at hsize
  exact (admits_eq_ok_iff _).mpr ⟨hempty, hnull.1, by omega⟩

/-- Where a path below a directory leads, the directory is, and its entry has the name. -/
theorem leadsTo_of_locate_join {s : Store} {directory : Path} {name : String}
    {place : Location} (hname : isName name = true)
    (h : s.locate (directory.join name) = .ok place) :
    ∃ inside, place = name :: inside ∧ s.LeadsTo directory inside := by
  obtain ⟨hadmits, hwalk⟩ := (s.locate_eq_ok_iff _ place).mp h
  have hstart : s.start (directory.join name) = s.start directory := by
    unfold start
    rw [Path.isAbsolute_join (Path.isAbsolute_of_isName hname)]
  -- The last step is made from a directory, by the name.
  have hstep : ∀ {inside : Location}, s.walk inside [name] = .ok place →
      place = name :: inside ∧ s.node? inside = some .directory := by
    intro inside hlast
    obtain ⟨hdirectory, next, hnext, hrest⟩ := (s.walk_cons_eq_ok_iff inside name [] place).mp hlast
    cases hrest
    exact ⟨advance_of_isName hname hnext, hdirectory⟩
  rcases Path.components_join_name hname directory with
    ⟨hempty, hjoin⟩ | ⟨hempty, lead, slash, hcomponents, hslash, hjoin⟩
  · rw [hjoin, hstart] at hwalk
    have hrelative : directory.isAbsolute = false := by
      rw [Path.isAbsolute, hempty]
      rfl
    rw [start, hrelative, if_neg Bool.false_ne_true] at hwalk
    obtain ⟨hplace, hdirectory⟩ := hstep hwalk
    exact ⟨s.workingDirectory, hplace, hdirectory, by rw [if_pos hempty]⟩
  · rw [hjoin, hstart, walk_append] at hwalk
    cases hlead : s.walk (s.start directory) lead with
    | error e =>
        rw [hlead] at hwalk
        cases hwalk
    | ok inside =>
        rw [hlead] at hwalk
        obtain ⟨hplace, hdirectory⟩ := hstep hwalk
        have hslashes : s.walk inside slash = .ok inside :=
          walk_silent hdirectory fun n hn => by
            rcases hslash with rfl | rfl
            · exact absurd hn List.not_mem_nil
            · exact List.mem_singleton.mp hn
        refine ⟨inside, hplace, hdirectory, ?_⟩
        rw [if_neg hempty]
        refine (s.locate_eq_ok_iff directory inside).mpr ⟨admits_of_join hempty hname hadmits, ?_⟩
        rw [hcomponents, walk_append, hlead]
        exact hslashes

/-- Below a directory a name leads to a place of that name. -/
theorem exists_of_locate_join {s : Store} {p : Path} {name : String} {place : Location}
    (hname : isName name = true) (h : s.locate (p.join name) = .ok place) :
    ∃ directory, place = name :: directory := by
  obtain ⟨directory, hplace, -⟩ := leadsTo_of_locate_join hname h
  exact ⟨directory, hplace⟩

/-- Nothing but names is on a way that is made of components. -/
theorem isName_of_walk {s : Store} {place q : Location} {names : List String}
    (h : s.walk place names = .ok q) (hplace : ∀ name ∈ place, isName name = true)
    (hnames : ∀ name ∈ names, '/' ∉ name.toList) : ∀ name ∈ q, isName name = true := by
  induction names generalizing place with
  | nil =>
      cases h
      exact hplace
  | cons name rest ih =>
      obtain ⟨-, next, hnext, hrest⟩ := (s.walk_cons_eq_ok_iff place name rest q).mp h
      exact ih hrest (isName_of_advance hnext hplace (hnames name List.mem_cons_self))
        fun n hn => hnames n (List.mem_cons_of_mem _ hn)

/-- There are names only on a way. -/
theorem isName_of_locate {s : Store} {p : Path} {place : Location} (h : s.locate p = .ok place) :
    ∀ name ∈ place, isName name = true := by
  obtain ⟨-, hwalk⟩ := (s.locate_eq_ok_iff p place).mp h
  refine isName_of_walk hwalk ?_ fun name hname => ?_
  · rw [start]
    split
    · exact List.forall_mem_nil _
    · exact s.workingDirectory_names
  · obtain ⟨run, hrun, rfl⟩ := List.mem_map.mp hname
    rw [String.toList_ofList]
    exact Text.not_mem_of_mem_split _ run hrun

/-- Names lead down. -/
theorem eq_of_walk_names {s : Store} {place q : Location} {names : List String}
    (hnames : ∀ name ∈ names, isName name = true) (h : s.walk place names = .ok q) :
    q = names.reverse ++ place := by
  induction names generalizing place with
  | nil =>
      cases h
      rfl
  | cons name rest ih =>
      obtain ⟨-, next, hnext, hrest⟩ := (s.walk_cons_eq_ok_iff place name rest q).mp h
      obtain rfl := advance_of_isName (hnames name List.mem_cons_self) hnext
      rw [ih (fun n hn => hnames n (List.mem_cons_of_mem _ hn)) hrest, List.reverse_cons,
        List.append_assoc, List.singleton_append]

end Store

end SimStudio
