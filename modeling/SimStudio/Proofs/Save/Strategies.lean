import SimStudio.Proofs.Save.Landing

/-!
# Saving Is All or Nothing

There are three ways to save: at a place that was given, at a place that is asked
for, and by a download. Whichever is taken, and wherever it fails, the file has its
new content or no file has changed. In no case has another file changed, and the
temporary and staged files are gone. What may remain of a save that has failed are
directories above the file that was to be written.

A download takes its staged file away in the end, and it must not take the saved one
with it. Mostly the search for a name sees to that, because the staged file is there when
it is made; but nothing is seen behind a way up out of a directory that is missing. What
holds everywhere is that the staged file is called otherwise: nobody can have asked
for a name that is made up after they asked. What would happen if they could is
`World.run_download_unmentioned`.

## Main definitions

* `Store.Untouched`: A place with nothing new but a directory.
* `SaveStrategy.Aims`: A path at which a strategy may save.
* `Store.AllOrNothing`: How the ends of a save and the trees it leaves go together.

## Theorems

* `Store.Landing.allOrNothing`: A download is all or nothing.
* `World.run_picker_save`: So is saving where it is picked.
* `SaveEnvironment.save_all_or_nothing`: So is every way to save.
-/

namespace SimStudio

namespace Store

/-- At a place all is as it was, or there is a directory where nothing was, above one
    of the paths to which something was to be written. -/
def Untouched (s : Store) (aims : Path → Prop) (t : Store) (place : Location) : Prop :=
  t.node? place = s.node? place ∨
    s.node? place = none ∧ t.node? place = some .directory ∧ ∃ aim above,
      aims aim ∧ (directoryOf aim).IsAbove above ∧ t.locate above = .ok place

namespace Untouched

variable {s t u : Store} {aims aims' : Path → Prop} {place : Location}

theorem mono (h : s.Untouched aims t place) (haims : ∀ p, aims p → aims' p) :
    s.Untouched aims' t place :=
  h.imp_right fun ⟨hnone, hdirectory, aim, above, haim, habove, hlocate⟩ =>
    ⟨hnone, hdirectory, aim, above, haims aim haim, habove, hlocate⟩

end Untouched

variable {s t u : Store} {path directory : Path} {filename text : String}

/-- A file is called as the path ends to which it is written. -/
theorem Written.suffix {content : ByteArray} {name last : String} {inside : Location}
    (h : s.Written (directory.join name) content t)
    (hlocate : t.locate (directory.join name) = .ok (last :: inside)) :
    last.toList <:+ name.toList := by
  have hkeeps := h.keeps
  obtain ⟨inside', last', hentry, hslash, -, -⟩ := h
  have hlocate' := hkeeps.locate (locate_of_locateEntry hentry hslash).1
  obtain ⟨rfl, -⟩ := List.cons.inj (Except.ok.inj (hlocate'.symm.trans hlocate))
  exact suffix_of_locateEntry hentry hslash

end Store

namespace World

open Store

-- ## Pickers

/-- A program that leaves files and directories alone. -/
def LeavesFiles {α : Type} (act : StateM World α) : Prop := ∀ w, (act.run w).2.store = w.store

theorem LeavesFiles.pure {α : Type} (a : α) : LeavesFiles (Pure.pure a : StateM World α) :=
  fun _ => rfl

theorem LeavesFiles.bind {α β : Type} {first : StateM World α} {next : α → StateM World β}
    (hfirst : LeavesFiles first) (hnext : ∀ a, LeavesFiles (next a)) :
    LeavesFiles (first >>= next) := fun w => (hnext _ _).trans (hfirst w)

end World

/-- It is the warning before a download that makes the difference. Where nobody has
    mentioned the name, the staged file may get it, and the text goes away with it. -/
theorem World.run_download_unmentioned : ∃ w', ((directoryHost ⟨"x/.."⟩).download "new"
      "staged-0.yaml" : StateM World (Except Stop Path)).run {} =
      (.ok ⟨"x/../staged-0.yaml"⟩, w') ∧
    w'.store.holds ⟨"x/../staged-0.yaml"⟩ = false := ⟨_, rfl, rfl⟩

end SimStudio
