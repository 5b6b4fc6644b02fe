import Mathlib.Data.List.FinRange
import Mathlib.Tactic.Choose
import SimStudio.Proofs.Save.Landing

/-!
# Downloads Take the Place of Nothing

Many texts may be downloaded into one directory, under names that are taken already, or
that become taken meanwhile. Each lands at a path where nothing stood, all that
stood before stays, and in the end each is read from the path that was
reported for it.

The search for a name asks for each candidate whether something stands there, and
the directory may be created after it has been asked. So all of this is true of
directories whose path does not go up out of one that is missing. Where it does,
the search sees nothing behind it, and what is written may take the place of a
file (`downloads_keep_files_detour`).

A search can only fail for want of numbers. All of them are taken then, and each makes a
name of its own, so that there are as many files as numbers.

## Main definitions

* `Store.Settles`: What the end of a download says about the tree before it.
* `World.downloadEach`: Downloads one after the other.
* `savedPath?`: The path that is reported.

## Theorems

* `Store.Landing.step`: What a single download keeps.
* `World.run_downloadEach`: What many downloads keep, by induction.
* `World.downloads_keep_files`: No download takes the place of another one, nor of a file.
-/

namespace SimStudio

namespace Store

/-- What the end of a download says about the tree that it has found: where it has landed
    nothing stood, and this is the plain name, or the first numbered one if that was
    taken. It has failed for want of numbers only if all of them were taken. -/
def Settles (s : Store) (directory : Path) (filename : String) : Except Stop SaveOutcome → Prop
  | .ok (.saved path) => s.holds path = false ∧
      (s.holds (directory.join filename) = true → ∃ n, s.IsFirstFree directory filename n ∧
        path = directory.join (numberedName filename n)) ∧
      (s.holds (directory.join filename) = false → path = directory.join filename)
  | .ok .cancelled => False
  | .error (.failed _) => True
  | .error (.faulted f) => f = .additionOverflow ∧ numberLimit ≤ s.nodes.length ∧
      ∀ n, 1 ≤ n → n ≤ numberLimit →
        s.holds (directory.join (numberedName filename n)) = true

variable {s t : Store} {directory path : Path} {text filename staged : String}

-- ## Staged files

/-- A staged file is seen only where its own name is asked for. -/
theorem CanStage.holds_join (h : s.CanStage filename staged) {name : String}
    (hname : isName name = true) (hwanted : name = filename ∨ ∃ n, name = numberedName filename n) :
    (s.withStaged staged text).holds (directory.join name) = s.holds (directory.join name) := by
  rw [Bool.eq_iff_iff]
  constructor
  · intro hholds
    obtain ⟨place, hlocate, hnode⟩ := (holds_iff _ _).mp hholds
    obtain ⟨inside, rfl⟩ := exists_of_locate_join hname hlocate
    have hplace : name :: inside ≠ s.stagedPlace staged := fun heq =>
      h.unwanted name hwanted ((List.cons.inj heq).1 ▸ List.suffix_rfl)
    rw [node?_withStaged, if_neg hplace] at hnode
    exact (s.holds_iff _).mpr ⟨_, (h.keeps text).2.locate hlocate, hnode⟩
  · exact (h.grown text).holds

theorem CanStage.holds_join_numberedName (h : s.CanStage filename staged)
    (hname : isName filename = true) (n : Nat) :
    (s.withStaged staged text).holds (directory.join (numberedName filename n)) =
      s.holds (directory.join (numberedName filename n)) :=
  h.holds_join (isName_numberedName hname n) (.inr ⟨n, rfl⟩)

/-- The first free number is the same with a staged file. -/
theorem CanStage.isFirstFree (h : s.CanStage filename staged) (hname : isName filename = true)
    {k : Nat} (hfirst : (s.withStaged staged text).IsFirstFree directory filename k) :
    s.IsFirstFree directory filename k := by
  have hholds : ∀ j, (s.withStaged staged text).holds (directory.join (numberedName filename j)) =
      s.holds (directory.join (numberedName filename j)) := h.holds_join_numberedName hname
  exact ⟨hfirst.pos, hfirst.le, hholds k ▸ hfirst.free,
    fun j hpos hj => hholds j ▸ hfirst.taken j hpos hj⟩

/-- What there is beside a staged file is still there when that one has been taken
    away. -/
theorem CanStage.grown_erase (h : s.CanStage filename staged)
    (ht : (s.withStaged staged text).Grown t) : s.Grown (t.erase (s.stagedPlace staged)) := by
  refine ⟨ht.start, ht.temporary, fun q m hq => ?_⟩
  have hne : q ≠ s.stagedPlace staged := by
    rintro rfl
    rw [h.free] at hq
    cases hq
  rw [t.node?_erase (s.stagedPlace_ne_nil staged), if_neg hne]
  exact ht.node? q m ((h.grown text).node? q m hq)

theorem node?_stagedPlace_ne (ht : (s.withStaged staged text).Grown t) :
    t.node? (s.stagedPlace staged) ≠ some .directory := by
  rw [ht.node? _ _ (s.node?_stagedPlace staged text)]
  exact nofun

-- ## One download

/-- Where a file name is taken with every number up to a limit, there are as many
    nodes: each number makes a name of its own. -/
theorem le_length_of_taken (hname : isName filename = true) {limit : Nat}
    (htaken : ∀ n, 1 ≤ n → n ≤ limit → s.holds (directory.join (numberedName filename n)) = true) :
    limit ≤ s.nodes.length := by
  have hplaces : ∀ i : Fin limit, ∃ inside,
      s.node? (numberedName filename (i + 1) :: inside) ≠ none := by
    intro i
    obtain ⟨place, hlocate, hnode⟩ := (s.holds_iff _).mp (htaken (i + 1) (by omega) (by omega))
    obtain ⟨inside, rfl⟩ := exists_of_locate_join (isName_numberedName hname _) hlocate
    exact ⟨inside, hnode⟩
  choose inside hinside using hplaces
  have hdistinct : ((List.finRange limit).map
      fun i : Fin limit => numberedName filename (i + 1) :: inside i).Nodup := by
    refine (List.nodup_finRange limit).map fun i j heq => ?_
    have hnumber := numberedName_injective filename (List.cons.inj heq).1
    omega
  have hlength := length_le_of_taken (s := s) hdistinct fun place hplace => by
    obtain ⟨i, -, rfl⟩ := List.mem_map.mp hplace
    exact ⟨List.cons_ne_nil _ _, hinside i⟩
  rwa [List.length_map, List.length_finRange] at hlength

/-- Where a search has ended while the text was staged tells about the tree before. -/
theorem CanStage.settles (h : s.CanStage filename staged) (hname : isName filename = true)
    (hdestination : (s.withStaged staged text).IsDestination directory filename path) :
    s.Settles directory filename (.ok (.saved path)) := by
  have hfree : s.holds path = false := (h.grown text).holds_eq_false hdestination.free
  cases hdestination with
  | plain free =>
      refine ⟨hfree, fun htaken => ?_, fun _ => rfl⟩
      rw [hfree] at htaken
      cases htaken
  | numbered taken first =>
      refine ⟨hfree, fun _ => ⟨_, h.isFirstFree hname first, rfl⟩, fun hplain => ?_⟩
      rw [h.holds_join hname (.inl rfl), hplain] at taken
      cases taken

/-- A download keeps all that was there, and lands where nothing was. -/
theorem Landing.step {outcome : Except Stop SaveOutcome}
    (h : s.Landing directory text filename outcome t) (htree : s.IsTree)
    (hgrounded : s.IsGrounded directory) (hname : isName filename = true) :
    t.IsTree ∧ s.Grown t ∧ s.Settles directory filename outcome ∧
      ∀ path, outcome = .ok (.saved path) → t.read? path = some text.toUTF8 := by
  cases h with
  | unstaged unchanged =>
      exact ⟨htree.alike unchanged, unchanged.furnished.grown, trivial, nofun⟩
  | exhausted canStage taken =>
      have hnumbers := fun k hpos hle =>
        (canStage.holds_join_numberedName hname k).symm.trans (taken.2 k hpos hle)
      exact ⟨(canStage.isTree htree text).erase (node?_stagedPlace_ne (.refl _)),
        canStage.grown_erase (.refl _), ⟨rfl, le_length_of_taken hname hnumbers, hnumbers⟩, nofun⟩
  | refused canStage destination built unchanged =>
      have hgrown := built.grown.trans unchanged.furnished.grown
      exact ⟨(((canStage.isTree htree text).built built).alike unchanged).erase
        (node?_stagedPlace_ne hgrown), canStage.grown_erase hgrown, trivial, nofun⟩
  | @saved staged _ _ _ canStage destination built written =>
      -- The search has been made in the tree with the staged file, and so the path is free there.
      obtain ⟨name, rfl, hjoined⟩ := destination.exists_join
      have hisName : isName name = true := by
        rcases hjoined with rfl | ⟨k, rfl⟩
        · exact hname
        · exact isName_numberedName hname k
      obtain ⟨hgrown, place, hfree, hlocate, hnode⟩ := Written.fresh (canStage.isTree htree text)
        ((hgrounded.join hisName).grown (canStage.grown text)) destination.free built written
      have hplace : place ≠ s.stagedPlace staged := by
        rintro rfl
        rw [s.node?_stagedPlace staged text] at hfree
        cases hfree
      refine ⟨(((canStage.isTree htree text).built built).written written).erase
        (node?_stagedPlace_ne hgrown), canStage.grown_erase hgrown,
        canStage.settles hname destination, fun path heq => ?_⟩
      cases heq
      exact read?_erase hlocate hnode (node?_stagedPlace_ne hgrown) hplace

end Store

-- ## Many downloads

/-- The path that is reported, if a text has been saved. -/
def savedPath? : Except Stop SaveOutcome → Option Path
  | .ok (.saved path) => some path
  | _ => none

theorem savedPath?_eq_some_iff (outcome : Except Stop SaveOutcome) (path : Path) :
    savedPath? outcome = some path ↔ outcome = .ok (.saved path) := by
  unfold savedPath?
  split
  · simp
  · rename_i hnot
    simpa using hnot path

namespace World

open Store

/-- Downloads into a directory one after the other, each of a text under a file name. -/
def downloadEach (directory : Path) (saves : List (String × String)) :
    StateM World (List (Except Stop SaveOutcome)) :=
  saves.mapM fun save => saveByDownload (directoryHost directory) save.1 save.2

theorem run_downloadEach_cons {directory : Path} {save : String × String} {w v : World}
    {outcome : Except Stop SaveOutcome}
    (h : (saveByDownload (directoryHost directory) save.1 save.2 :
      StateM World (Except Stop SaveOutcome)).run w = (outcome, v))
    (saves : List (String × String)) :
    (downloadEach directory (save :: saves)).run w =
      (outcome :: ((downloadEach directory saves).run v).1,
        ((downloadEach directory saves).run v).2) := by
  rw [downloadEach, List.mapM_cons, run_bind h]
  rfl

/-- Downloads keep all that was there, and land at different paths where nothing was. In
    the end each text is read where it has landed. -/
theorem run_downloadEach {directory : Path} {w : World} (htree : w.store.IsTree)
    (hgrounded : w.store.IsGrounded directory) {saves : List (String × String)}
    (hnames : ∀ save ∈ saves, isName save.2 = true) :
    ∃ outcomes w', (downloadEach directory saves).run w = (outcomes, w') ∧
      w'.store.IsTree ∧ w.store.Grown w'.store ∧ (outcomes.filterMap savedPath?).Nodup ∧
      (∀ path ∈ outcomes.filterMap savedPath?, w.store.holds path = false) ∧
      List.Forall₂ (fun save outcome => ∀ path, outcome = .ok (.saved path) →
        w'.store.read? path = some save.1.toUTF8) saves outcomes := by
  induction saves generalizing w with
  | nil => exact ⟨[], w, rfl, htree, .refl _, .nil, by simp, .nil⟩
  | cons save saves ih =>
      obtain ⟨outcome, v, hrun, hlanding⟩ := run_saveByDownload directory save.1 save.2 w
      obtain ⟨htree', hgrown, hsettles, hread⟩ :=
        hlanding.step htree hgrounded (hnames save List.mem_cons_self)
      obtain ⟨outcomes, w', hruns, htree'', hgrown', hdistinct, hfree, hreads⟩ :=
        ih htree' (hgrounded.grown hgrown) fun s hs => hnames s (List.mem_cons_of_mem _ hs)
      refine ⟨outcome :: outcomes, w', by rw [run_downloadEach_cons hrun, hruns], htree'',
        hgrown.trans hgrown', ?_, ?_, .cons (fun path hpath => ?_) hreads⟩
      · -- What is saved later lands where nothing is even now, and so not on this file.
        rw [List.filterMap_cons]
        split
        · exact hdistinct
        · rename_i path hpath
          refine List.nodup_cons.mpr ⟨fun hmem => ?_, hdistinct⟩
          have hholds := holds_of_read? (hread path ((savedPath?_eq_some_iff _ _).mp hpath))
          exact Bool.false_ne_true ((hfree path hmem).symm.trans hholds)
      · intro path hmem
        obtain ⟨o, ho, hpath⟩ := List.mem_filterMap.mp hmem
        rcases List.mem_cons.mp ho with rfl | ho
        · obtain rfl := (savedPath?_eq_some_iff _ _).mp hpath
          exact hsettles.1
        · exact hgrown.holds_eq_false (hfree path (List.mem_filterMap.mpr ⟨o, ho, hpath⟩))
      · exact hgrown'.read?_of_some (hread path hpath)

/-- Of any downloads into a directory whose path does not go up out of a missing one,
    each lands where nothing was, under the first numbered name if the plain one was
    taken, and fails for want of numbers only if all of them were taken. No two land
    at the same path; in the end each text is read from its own, and all files that
    were there before are as they were. -/
theorem downloads_keep_files {directory : Path} {w : World} (htree : w.store.IsTree)
    (hgrounded : w.store.IsGrounded directory) {saves : List (String × String)}
    (hnames : ∀ save ∈ saves, isName save.2 = true) :
    (∀ earlier text filename later, saves = earlier ++ (text, filename) :: later →
      ∃ outcomes v outcome v', (downloadEach directory earlier).run w = (outcomes, v) ∧
        (saveByDownload (directoryHost directory) text filename :
          StateM World (Except Stop SaveOutcome)).run v = (outcome, v') ∧
        v.store.Settles directory filename outcome) ∧
    ∃ outcomes w', (downloadEach directory saves).run w = (outcomes, w') ∧
      (outcomes.filterMap savedPath?).Nodup ∧
      List.Forall₂ (fun save outcome => ∀ path, outcome = .ok (.saved path) →
        w'.store.read? path = some save.1.toUTF8) saves outcomes ∧
      ∀ p content, w.store.read? p = some content → w'.store.read? p = some content := by
  refine ⟨fun earlier text filename later hsaves => ?_, ?_⟩
  · obtain ⟨hearlier, hnow⟩ : (∀ save ∈ earlier, isName save.2 = true) ∧
        isName filename = true := by
      rw [hsaves] at hnames
      exact ⟨fun save hsave => hnames save (List.mem_append_left _ hsave),
        hnames (text, filename) (List.mem_append_right _ List.mem_cons_self)⟩
    obtain ⟨outcomes, v, hruns, htree', hgrown, -, -, -⟩ :=
      run_downloadEach htree hgrounded hearlier
    obtain ⟨outcome, v', hrun, hlanding⟩ := run_saveByDownload directory text filename v
    obtain ⟨-, -, hsettles, -⟩ := hlanding.step htree' (hgrounded.grown hgrown) hnow
    exact ⟨outcomes, v, outcome, v', hruns, hrun, hsettles⟩
  · obtain ⟨outcomes, w', hruns, -, hgrown, hdistinct, -, hreads⟩ :=
      run_downloadEach htree hgrounded hnames
    exact ⟨outcomes, w', hruns, hdistinct, hreads, fun p content hp => hgrown.read?_of_some hp⟩

/-- A world with a file in a directory. -/
def oneFile : World :=
  { store := .ofNodes [(["a.yaml", "out"], .file "old".toUTF8), (["out"], .directory)] }

theorem isTree_oneFile : oneFile.store.IsTree :=
  .of_nodes (List.forall_mem_cons.mpr ⟨fun _ => rfl, List.forall_mem_cons.mpr
    ⟨fun _ => rfl, List.forall_mem_nil _⟩⟩)

/-- Two texts get the next two numbers, and the file is as it was. -/
theorem downloads_keep_files_twice : oneFile.store.IsTree ∧ oneFile.store.IsGrounded ⟨"out"⟩ ∧
    isName "a.yaml" = true ∧ ∃ w',
    (downloadEach ⟨"out"⟩ [("new", "a.yaml"), ("newer", "a.yaml")]).run oneFile =
      ([.ok (.saved ⟨"out/a (1).yaml"⟩), .ok (.saved ⟨"out/a (2).yaml"⟩)], w') ∧
    w'.store.read? ⟨"out/a (1).yaml"⟩ = some "new".toUTF8 ∧
    w'.store.read? ⟨"out/a (2).yaml"⟩ = some "newer".toUTF8 ∧
    w'.store.read? ⟨"out/a.yaml"⟩ = some "old".toUTF8 := by
  have hgrounded : oneFile.store.IsGrounded ⟨"out"⟩ := .of_not_mem (by decide) _
  have hnames : ∀ save ∈ [("new", "a.yaml"), ("newer", "a.yaml")], isName save.2 = true := by
    decide
  obtain ⟨v, hrun⟩ : ∃ v,
      (downloadEach ⟨"out"⟩ [("new", "a.yaml"), ("newer", "a.yaml")]).run oneFile =
        ([.ok (.saved ⟨"out/a (1).yaml"⟩), .ok (.saved ⟨"out/a (2).yaml"⟩)], v) := ⟨_, rfl⟩
  obtain ⟨-, outcomes, w', hruns, -, hreads, hkept⟩ :=
    downloads_keep_files isTree_oneFile hgrounded hnames
  obtain ⟨rfl, rfl⟩ := Prod.mk.inj (hruns.symm.trans hrun)
  cases hreads with
  | cons hfirst hrest =>
      cases hrest with
      | cons hsecond _ =>
          exact ⟨isTree_oneFile, hgrounded, by decide, w', hruns, hfirst _ rfl, hsecond _ rfl,
            hkept _ _ rfl⟩

/-- A world in which a file stands in a directory, and another directory is missing. -/
def besideMissing : World :=
  { store := .ofNodes [(["a.yaml", "y"], .file "old".toUTF8), (["y"], .directory)] }

/-- A way up out of the missing directory leads past the search to the file. -/
theorem downloads_keep_files_detour : ∃ w',
    (saveByDownload (directoryHost ⟨"x/../y"⟩) "new" "a.yaml" :
      StateM World (Except Stop SaveOutcome)).run besideMissing =
      (.ok (.saved ⟨"x/../y/a.yaml"⟩), w') ∧
    besideMissing.store.read? ⟨"y/a.yaml"⟩ = some "old".toUTF8 ∧
    w'.store.read? ⟨"y/a.yaml"⟩ = some "new".toUTF8 := ⟨_, rfl, rfl, rfl⟩

end World

end SimStudio
