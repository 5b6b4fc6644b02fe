import SimStudio.Proofs.Store.Trees
import SimStudio.Save.Strategy

/-!
# How a Download Ends

A download stages its text, looks for a free name, writes the text there, and takes
the staged file away. All that it can do is said by one relation between the tree
that it finds, how it ends, and the tree that it leaves (`Store.Landing`): nothing
could be staged; all names were taken; the text could not be written; or it was
written to a path that was free when the search came upon it.

The search is made while the staged file stands, and before missing directories are
created. So what it has seen is said about the tree with the staged file, and what is
written is written to that tree with its new directories.

The staged file has a name of its own. Which one is up to the machine, but none of the
names under which the text may land ends like it: the wanted one is on the log before
anything is staged, and a numbered one has a bracket where the staged file has a digit.

## Main definitions

* `Store.IsFirstFree`, `Store.IsDestination`: Where a search for a name ends.
* `Store.IsExhausted`: All names are taken.
* `Store.CanStage`: A name under which a text can be staged.
* `Store.withStaged`: A tree with a staged file that has its text.
* `Store.Landing`: How a download ends.

## Theorems

* `World.run_stage`: A staged file has a name that nobody has asked for.
* `World.run_uniqueDestination`: A search ends at the first free name.
* `World.run_saveByDownload`: A download ends in one of four ways.
-/

namespace SimStudio

namespace Store

/-- The first number with which a file name is free in a directory. -/
structure IsFirstFree (s : Store) (directory : Path) (filename : String) (n : Nat) : Prop where
  pos : 1 ≤ n
  le : n ≤ numberLimit
  free : s.holds (directory.join (numberedName filename n)) = false
  taken : ∀ k, 1 ≤ k → k < n → s.holds (directory.join (numberedName filename k)) = true

/-- The path that a file gets in a directory. -/
inductive IsDestination (s : Store) (directory : Path) (filename : String) : Path → Prop
  | plain (free : s.holds (directory.join filename) = false) :
      IsDestination s directory filename (directory.join filename)
  | numbered {n : Nat} (taken : s.holds (directory.join filename) = true)
      (first : s.IsFirstFree directory filename n) :
      IsDestination s directory filename (directory.join (numberedName filename n))

/-- A file name is taken in a directory with every number, too. -/
def IsExhausted (s : Store) (directory : Path) (filename : String) : Prop :=
  s.holds (directory.join filename) = true ∧
    ∀ n, 1 ≤ n → n ≤ numberLimit → s.holds (directory.join (numberedName filename n)) = true

/-- The place of a staged file with a name. -/
def stagedPlace (s : Store) (staged : String) : Location := staged :: s.temporaryDirectory

/-- A tree with a staged text. -/
def withStaged (s : Store) (staged text : String) : Store :=
  s.put (s.stagedPlace staged) (.file text.toUTF8)

/-- A text for a file name can be staged under a name: nothing stands there, and neither
    the file name nor a numbered one ends like it. -/
structure CanStage (s : Store) (filename staged : String) : Prop where
  free : s.node? (s.stagedPlace staged) = none
  inside : s.node? s.temporaryDirectory = some .directory
  unwanted : ∀ name, (name = filename ∨ ∃ n, name = numberedName filename n) →
    ¬staged.toList <:+ name.toList

/-- How the download of a text into a directory ends, and what it leaves behind. -/
inductive Landing (s : Store) (directory : Path) (text filename : String) :
    Except Stop SaveOutcome → Store → Prop
  | unstaged {t : Store} (unchanged : s.Alike t) :
      Landing s directory text filename (.error (.failed (.save .staging))) t
  | exhausted {staged : String} (canStage : s.CanStage filename staged)
      (taken : (s.withStaged staged text).IsExhausted directory filename) :
      Landing s directory text filename (.error (.faulted .additionOverflow))
        ((s.withStaged staged text).erase (s.stagedPlace staged))
  | refused {staged : String} {path : Path} {f : Failure} {t u : Store}
      (canStage : s.CanStage filename staged)
      (destination : (s.withStaged staged text).IsDestination directory filename path)
      (built : (s.withStaged staged text).Built (directoryOf path) t) (unchanged : t.Alike u) :
      Landing s directory text filename (.error (.failed f)) (u.erase (s.stagedPlace staged))
  | saved {staged : String} {path : Path} {t u : Store} (canStage : s.CanStage filename staged)
      (destination : (s.withStaged staged text).IsDestination directory filename path)
      (built : (s.withStaged staged text).Built (directoryOf path) t)
      (written : t.Written path text.toUTF8 u) :
      Landing s directory text filename (.ok (.saved path)) (u.erase (s.stagedPlace staged))

-- ## Destinations

/-- A destination is free. -/
theorem IsDestination.free {s : Store} {directory path : Path} {filename : String}
    (h : s.IsDestination directory filename path) : s.holds path = false := by
  cases h with
  | plain free => exact free
  | numbered taken first => exact first.free

/-- A destination is below the directory, under the file name or a numbered one. -/
theorem IsDestination.exists_join {s : Store} {directory path : Path} {filename : String}
    (h : s.IsDestination directory filename path) : ∃ name, path = directory.join name ∧
      (name = filename ∨ ∃ n, name = numberedName filename n) := by
  cases h with
  | plain free => exact ⟨filename, rfl, .inl rfl⟩
  | numbered taken first => exact ⟨_, rfl, .inr ⟨_, rfl⟩⟩

-- ## Staged files

theorem stagedPlace_ne_nil (s : Store) (staged : String) : s.stagedPlace staged ≠ [] :=
  List.cons_ne_nil _ _

theorem node?_withStaged (s : Store) (staged text : String) (q : Location) :
    (s.withStaged staged text).node? q =
      if q = s.stagedPlace staged then some (.file text.toUTF8) else s.node? q :=
  s.node?_put (s.stagedPlace_ne_nil staged) (.file text.toUTF8) q

theorem node?_stagedPlace (s : Store) (staged text : String) :
    (s.withStaged staged text).node? (s.stagedPlace staged) = some (.file text.toUTF8) := by
  rw [node?_withStaged, if_pos rfl]

namespace CanStage

variable {s : Store} {filename staged : String}

theorem keeps (h : s.CanStage filename staged) (text : String) :
    s.Keeps (s.withStaged staged text) ∧ (s.withStaged staged text).Keeps s :=
  keeps_put_file (ne_directory_of_free h.free) text.toUTF8

theorem grown (h : s.CanStage filename staged) (text : String) :
    s.Grown (s.withStaged staged text) :=
  grown_put h.free _

theorem isTree (h : s.CanStage filename staged) (htree : s.IsTree) (text : String) :
    (s.withStaged staged text).IsTree := by
  refine htree.put ?_ (ne_directory_of_free h.free) _
  exact h.inside

end CanStage

/-- A file elsewhere is read as well when another one has been taken away. -/
theorem read?_erase {s : Store} {place gone : Location} {path : Path} {content : ByteArray}
    (hlocate : s.locate path = .ok place) (hnode : s.node? place = some (.file content))
    (hgone : s.node? gone ≠ some .directory) (hne : place ≠ gone) :
    (s.erase gone).read? path = some content := by
  refine (read?_eq_some_iff _ path content).mpr ⟨place, (keeps_erase hgone).locate hlocate, ?_⟩
  rw [node?_erase _ (ne_nil_of_node?_ne hgone), if_neg hne, hnode]

/-- What is staged can be read. -/
theorem read?_withStaged {s : Store} {staged text : String} {p : Path}
    (h : (s.withStaged staged text).locate p = .ok (s.stagedPlace staged)) :
    (s.withStaged staged text).read? p = some text.toUTF8 :=
  (read?_eq_some_iff _ p _).mpr ⟨_, h, s.node?_stagedPlace staged text⟩

end Store

namespace World

open Store

-- ## Searches

theorem run_holds (p : Path) (w : World) :
    (Machine.holds p : StateM World Bool).run w = (w.store.holds p, w) := rfl

/-- A search from a number on ends at the first name that is free, if there is one among
    those that are left. -/
theorem run_firstFree (directory : Path) (filename : String) (w : World) (left n : Nat) :
    ∃ result, (firstFree directory filename left n : StateM World (Except Fault Path)).run w =
        (result, w) ∧
      match result with
      | .ok path => ∃ k, n ≤ k ∧ k < n + left ∧
          path = directory.join (numberedName filename k) ∧ w.store.holds path = false ∧
          ∀ j, n ≤ j → j < k → w.store.holds (directory.join (numberedName filename j)) = true
      | .error f => f = .additionOverflow ∧ ∀ j, n ≤ j → j < n + left →
          w.store.holds (directory.join (numberedName filename j)) = true := by
  induction left generalizing n with
  | zero => exact ⟨_, rfl, rfl, fun j hj hj' => absurd hj' (Nat.not_lt.mpr hj)⟩
  | succ left ih =>
      have hask := run_holds (directory.join (numberedName filename n)) w
      cases hholds : w.store.holds (directory.join (numberedName filename n)) with
      | false =>
          rw [hholds] at hask
          exact ⟨_, run_bind hask, n, Nat.le_refl n, by omega, rfl, hholds,
            fun j hj hj' => absurd hj' (Nat.not_lt.mpr hj)⟩
      | true =>
          rw [hholds] at hask
          obtain ⟨result, hrun, hresult⟩ := ih (n + 1)
          -- This name is taken, and so it joins those that the rest of the search has passed.
          have htaken : ∀ k, (∀ j, n + 1 ≤ j → j < k →
              w.store.holds (directory.join (numberedName filename j)) = true) → ∀ j, n ≤ j →
              j < k → w.store.holds (directory.join (numberedName filename j)) = true := by
            intro k hlater j hj hjk
            rcases Nat.eq_or_lt_of_le hj with rfl | hlt
            · exact hholds
            · exact hlater j hlt hjk
          refine ⟨result, (run_bind hask).trans hrun, ?_⟩
          cases result with
          | ok path =>
              obtain ⟨k, hk, hk', hpath, hfree, hlater⟩ := hresult
              exact ⟨k, by omega, by omega, hpath, hfree, htaken k hlater⟩
          | error f =>
              refine ⟨hresult.1, htaken (n + (left + 1)) fun j hj hj' => ?_⟩
              exact hresult.2 j hj (by omega)

/-- A search ends at the destination, unless all names are taken. -/
theorem run_uniqueDestination (directory : Path) (filename : String) (w : World) :
    ∃ result, (uniqueDestination directory filename : StateM World (Except Fault Path)).run w =
        (result, w) ∧
      match result with
      | .ok path => w.store.IsDestination directory filename path
      | .error f => f = .additionOverflow ∧ w.store.IsExhausted directory filename := by
  have hask := run_holds (directory.join filename) w
  cases hholds : w.store.holds (directory.join filename) with
  | false =>
      rw [hholds] at hask
      exact ⟨_, run_bind hask, .plain hholds⟩
  | true =>
      rw [hholds] at hask
      obtain ⟨result, hrun, hresult⟩ := run_firstFree directory filename w numberLimit 1
      refine ⟨result, (run_bind hask).trans hrun, ?_⟩
      cases result with
      | ok path =>
          obtain ⟨n, hpos, hle, rfl, hfree, htaken⟩ := hresult
          exact .numbered hholds ⟨hpos, by omega, hfree, htaken⟩
      | error f => exact ⟨hresult.1, hholds, fun n hpos hle => hresult.2 n hpos (by omega)⟩

-- ## The host

/-- A staged file stands at a place that was free, its path leads there, and a file name
    that has been mentioned does not end like its own. -/
theorem run_stage {filename : String} {w : World} (hmentioned : filename ∈ w.mentioned) :
    ∃ interruptions,
      (Machine.stage : StateM World (Option Path)).run w = (none, { w with interruptions }) ∨
        ∃ staged, w.store.CanStage filename staged ∧
          w.store.locate (absolutePath (w.store.stagedPlace staged)) =
            .ok (w.store.stagedPlace staged) ∧
          (Machine.stage : StateM World (Option Path)).run w =
            (some (absolutePath (w.store.stagedPlace staged)),
              { w with
                store := w.store.put (w.store.stagedPlace staged) (.file .empty)
                interruptions }) := by
  obtain ⟨made, interruptions, hrun, hmade⟩ := w.change_cases
    (w.createFresh w.store.temporaryDirectory stagedName) fun _ => (none, w.store)
  refine ⟨interruptions, ?_⟩
  rcases hmade with hwhole | ⟨-, rfl⟩
  · rcases createFresh_cases endsApart_stagedName isName_stagedName
      w.store.temporaryDirectory_names w with
      hrefused | ⟨k, hfree, hinside, hunknown, hpath, hfresh⟩
    · obtain rfl := hwhole.trans hrefused
      exact .inl hrun
    · obtain rfl := hwhole.trans hfresh
      refine .inr ⟨stagedName k, ⟨hfree, hinside, ?_⟩, hpath, hrun⟩
      rintro name (rfl | ⟨n, rfl⟩)
      · exact hunknown name hmentioned
      · exact not_stagedName_suffix filename k n
  · exact .inl hrun

/-- A text is staged with all that is in it, or no file stays behind. -/
theorem run_createAddress (directory : Path) (text : String) {filename : String} {w : World}
    (hmentioned : filename ∈ w.mentioned) :
    (∃ t interruptions, ((directoryHost directory).createAddress (Blob.ofText text) :
        StateM World (Except Stop Path)).run w =
        (.error (.failed (.save .staging)), { w with store := t, interruptions }) ∧
      w.store.Alike t) ∨
    ∃ staged log interruptions, w.store.CanStage filename staged ∧
      (w.store.withStaged staged text).locate (absolutePath (w.store.stagedPlace staged)) =
        .ok (w.store.stagedPlace staged) ∧
      ((directoryHost directory).createAddress (Blob.ofText text) :
        StateM World (Except Stop Path)).run w =
        (.ok (absolutePath (w.store.stagedPlace staged)),
          { w with store := w.store.withStaged staged text, log, interruptions }) := by
  obtain ⟨later, hnone | ⟨staged, hstaged, hpath, hsome⟩⟩ := run_stage hmentioned
  · exact .inl ⟨w.store, later, run_bind hnone, .refl w.store⟩
  · obtain ⟨done, written, later, hwrite, hwritten⟩ := run_write
      (w := { w with
        store := w.store.put (w.store.stagedPlace staged) (.file .empty), interruptions := later })
      hstaged.free hpath rfl text.toUTF8
    -- If not all has been written, the staged file is removed again.
    cases done with
    | true =>
        obtain rfl := hwritten rfl
        exact .inr ⟨staged, _, _, hstaged, locate_put_file hstaged.free hpath _,
          (run_bind hsome).trans (run_bind hwrite)⟩
    | false =>
        have hremove := run_remove (w := { w with
          store := w.store.put (w.store.stagedPlace staged) (.file written)
          interruptions := later })
          (locate_put_file hstaged.free hpath written)
        exact .inl ⟨_, _, (run_bind hsome).trans ((run_bind hwrite).trans (run_bind hremove)),
          alike_erase_put hstaged.free _⟩

theorem run_appendLink (directory staged : Path) (filename : String) (w : World) :
    ∃ result, ((directoryHost directory).appendLink staged filename :
        StateM World (Except Stop StagedLink)).run w = (result, w) ∧
      match result with
      | .ok link => link.source = staged ∧
          w.store.IsDestination directory filename link.target
      | .error e => e = .faulted .additionOverflow ∧ w.store.IsExhausted directory filename := by
  obtain ⟨result, hrun, hresult⟩ := run_uniqueDestination directory filename w
  cases result with
  | ok path => exact ⟨_, run_bind hrun, rfl, hresult⟩
  | error f => exact ⟨_, run_bind hrun, by rw [hresult.1], hresult.2⟩

/-- The text lands at the target of its link, or nothing happens to files. -/
theorem run_click (directory : Path) {link : StagedLink} {content : ByteArray} {w : World}
    (hsource : w.store.read? link.source = some content) :
    ∃ result t u interruptions,
      ((directoryHost directory).click link : StateM World (Except Stop Path)).run w =
        (result, { w with store := u, interruptions }) ∧
      w.store.Built (directoryOf link.target) t ∧
      match result with
      | .ok path => path = link.target ∧ t.Written link.target content u
      | .error e => (∃ f, e = .failed f) ∧ t.Alike u := by
  have hread : (Machine.readFile link.source : StateM World (Option ByteArray)).run w =
      (some content, w) := congrArg (·, w) hsource
  obtain ⟨result, t, u, later, hwrite, hbuilt, hresult⟩ :=
    run_writeAtomically link.target content w
  cases result with
  | ok done =>
      exact ⟨_, t, u, _, (run_bind hread).trans (run_bind hwrite), hbuilt, rfl, hresult⟩
  | error f =>
      exact ⟨_, t, u, _, (run_bind hread).trans (run_bind hwrite), hbuilt, ⟨f, rfl⟩, hresult⟩

/-- A download ends in one of four ways, and the staged file goes away. -/
theorem run_download (directory : Path) (text : String) {filename : String} {w : World}
    (hmentioned : filename ∈ w.mentioned) : ∃ result w',
    ((directoryHost directory).download text filename : StateM World (Except Stop Path)).run w =
        (result, w') ∧
      w.store.Landing directory text filename (result.map .saved) w'.store := by
  rcases run_createAddress directory text hmentioned with
    ⟨t, later, hnone, hunchanged⟩ | ⟨staged, log, later, hstaged, hpath, hmade⟩
  · exact ⟨_, _, run_bind hnone, .unstaged hunchanged⟩
  · obtain ⟨result, happend, hresult⟩ := run_appendLink directory
      (absolutePath (w.store.stagedPlace staged)) filename
      { w with store := w.store.withStaged staged text, log, interruptions := later }
    cases result with
    | error e =>
        obtain ⟨rfl, hexhausted⟩ := hresult
        have hremove := run_remove (w := { w with
          store := w.store.withStaged staged text, log, interruptions := later }) hpath
        exact ⟨_, _, (run_bind hmade).trans ((run_bind happend).trans (run_bind hremove)),
          .exhausted hstaged hexhausted⟩
    | ok link =>
        obtain ⟨hsource, hdestination⟩ := hresult
        obtain ⟨landed, t, u, later, hclick, hbuilt, hlanded⟩ := run_click directory
          (w := { w with store := w.store.withStaged staged text, log, interruptions := later })
          (hsource ▸ read?_withStaged hpath)
        -- However the click ends, the path of the staged file still leads to it.
        have hkeeps : (w.store.withStaged staged text).Keeps u := by
          cases landed with
          | ok path => exact hbuilt.grown.keeps.trans hlanded.2.keeps
          | error e => exact hbuilt.grown.keeps.trans hlanded.2.furnished.grown.keeps
        obtain ⟨log', hrelease⟩ : ∃ log', ((directoryHost directory).removeLink link :
            StateM World Unit).run { w with store := u, log, interruptions := later } =
            ((), { w with store := u, log := log', interruptions := later }) := ⟨_, rfl⟩
        have hremove := run_remove
          (w := { w with store := u, log := log', interruptions := later }) (hkeeps.locate hpath)
        refine ⟨landed, _, (run_bind hmade).trans ((run_bind happend).trans ((run_bind hclick).trans
          ((run_bind hrelease).trans (run_bind hremove)))), ?_⟩
        cases landed with
        | ok path =>
            obtain ⟨rfl, hwritten⟩ := hlanded
            exact .saved hstaged hdestination hbuilt hwritten
        | error e =>
            obtain ⟨⟨f, rfl⟩, hunchanged⟩ := hlanded
            exact .refused hstaged hdestination hbuilt hunchanged

/-- Saving by a download ends as the download does. -/
theorem run_saveByDownload (directory : Path) (text filename : String) (w : World) :
    ∃ outcome w', (saveByDownload (directoryHost directory) text filename :
        StateM World (Except Stop SaveOutcome)).run w = (outcome, w') ∧
      w.store.Landing directory text filename outcome w'.store := by
  -- The warning on the log is what keeps the staged file from being called like this one.
  obtain ⟨v, hwarn, hstore, hmentioned⟩ : ∃ v, (Machine.log .warn
      "save picker unavailable, falling back to download" [("filename", filename)] :
        StateM World Unit).run w = ((), v) ∧
      v.store = w.store ∧ filename ∈ v.mentioned := by
    refine ⟨_, rfl, rfl, ?_⟩
    simp [mentioned]
  obtain ⟨result, w', hrun, hlanding⟩ := run_download directory text hmentioned
  rw [hstore] at hlanding
  refine ⟨_, w', (run_bind hwarn).trans ((run_bind hrun).trans ?_), hlanding⟩
  cases result with
  | ok path => rfl
  | error e => rfl

end World

end SimStudio
