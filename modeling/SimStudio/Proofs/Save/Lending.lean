import Mathlib.Data.List.Forall2
import SimStudio.Save.Strategy

/-!
# What Is on Loan Is Given Back

A download borrows an address and a link from its host and gives both back. The host
may be any: whether it answers with what it is asked for can depend on a state of its
own, and so on everything that it has been asked before, and on the machine. Nothing
but its answers decides what it is asked next.

What may be asked when is said by what is on loan (`Loan.Step`). A link is attached to
an address that is on loan, is triggered once, and is taken back before its address
is; an address that is given out is taken back before another one is asked for. A
download makes such a run, from nothing on loan to nothing on loan, and so do
downloads one after the other.

A download can be said once more as a program that tells, with how it ended, what it
has asked, and that it was one of the three ways in which a download goes. A record
that is kept beside the state of any host has the same in it, and changes nothing.

## Main definitions

* `Loan`: What is on loan.
* `Loan.Step`, `Loan.Runs`: What may be asked, and what is on loan then.
* `SaveRecord`: How a save ended, and what it asked.
* `SaveRecord.Made`: The three ways in which a download goes.
* `SaveRecord.Kept`: What a save owes.
* `recordedSave`, `recordedSaves`: Saves that tell what they ask.
* `saveEach`: Saves one after the other.

## Theorems

* `Loan.Runs.given_back`: What was given out is what was taken back and what is still
  on loan.
* `SaveRecord.Made.kept`: Each of the three ways keeps what a save owes.
* `run_saveEach_traced`: What saves ask of any host, by induction.
* `saveEach_gives_back`: Saves give back what was on loan, each exactly once.
-/

namespace SimStudio

/-- A machine with more state beside it. -/
instance {σ : Type} {m : Type → Type} [Machine m] : Machine (StateT σ m) where
  readFile p := StateT.lift (Machine.readFile p)
  holds p := StateT.lift (Machine.holds p)
  isDirectory p := StateT.lift (Machine.isDirectory p)
  isFile p := StateT.lift (Machine.isFile p)
  createDirectories p := StateT.lift (Machine.createDirectories p)
  createTemporary directory := StateT.lift (Machine.createTemporary directory)
  stage := StateT.lift Machine.stage
  write p content := StateT.lift (Machine.write p content)
  sync p := StateT.lift (Machine.sync p)
  replace source target := StateT.lift (Machine.replace source target)
  remove p := StateT.lift (Machine.remove p)
  readLine := StateT.lift Machine.readLine
  print s := StateT.lift (Machine.print s)
  prompt s := StateT.lift (Machine.prompt s)
  log level message fields := StateT.lift (Machine.log level message fields)
  currentDirectory := StateT.lift Machine.currentDirectory
  interactive := StateT.lift Machine.interactive
  freshId := StateT.lift Machine.freshId
  now := StateT.lift Machine.now

variable {Address Link : Type}

-- ## What Is on Loan

namespace HostCall

/-- The address that is given out. -/
def addressOut? : HostCall Address Link → Option Address
  | createAddress _ (.ok address) => some address
  | _ => none

/-- The address that is taken back. -/
def addressBack? : HostCall Address Link → Option Address
  | revokeAddress address => some address
  | _ => none

/-- The link that is given out. -/
def linkOut? : HostCall Address Link → Option Link
  | appendLink _ _ (.ok link) => some link
  | _ => none

/-- The link that is taken back. -/
def linkBack? : HostCall Address Link → Option Link
  | removeLink link => some link
  | _ => none

/-- Whether a link is triggered. -/
def isClick : HostCall Address Link → Bool
  | click .. => true
  | _ => false

/-- Why the host did not do what it was asked for. -/
def failure? : HostCall Address Link → Option Stop
  | createAddress _ (.error e) | appendLink _ _ (.error e) | click _ (.error e) => some e
  | _ => none

end HostCall

/-- What is on loan, and what has been done with it. -/
inductive Loan (Address Link : Type)
  | nothing
  | address (address : Address)
  | link (address : Address) (link : Link)
  | clicked (address : Address) (link : Link)
  /-- An address to which no link is attached any more. -/
  | spent (address : Address)

namespace Loan

/-- The address on loan. -/
def address? : Loan Address Link → Option Address
  | nothing => none
  | address a | link a _ | clicked a _ | spent a => some a

/-- The link on loan. -/
def link? : Loan Address Link → Option Link
  | nothing | address _ | spent _ => none
  | link _ l | clicked _ l => some l

/-- What may be asked of a host, and what is on loan then. -/
inductive Step : Loan Address Link → HostCall Address Link → Loan Address Link → Prop
  | unmade {blob e} : Step nothing (.createAddress blob (.error e)) nothing
  | made {blob a} : Step nothing (.createAddress blob (.ok a)) (address a)
  | unattached {a filename e} : Step (address a) (.appendLink a filename (.error e)) (spent a)
  | attached {a filename l} : Step (address a) (.appendLink a filename (.ok l)) (link a l)
  | clicked {a l landed} : Step (link a l) (.click l landed) (clicked a l)
  | removed {a l} : Step (clicked a l) (.removeLink l) (spent a)
  | revoked {a} : Step (spent a) (.revokeAddress a) nothing

/-- What may be asked in a row. -/
inductive Runs : Loan Address Link → List (HostCall Address Link) → Loan Address Link → Prop
  | nil {loan} : Runs loan [] loan
  | cons {loan loan' loan'' call calls} (step : Step loan call loan')
      (rest : Runs loan' calls loan'') : Runs loan (call :: calls) loan''

theorem Runs.append {loan loan' loan'' : Loan Address Link} {calls calls'}
    (h : Runs loan calls loan') (h' : Runs loan' calls' loan'') :
    Runs loan (calls ++ calls') loan'' := by
  induction h with
  | nil => exact h'
  | cons step _ ih => exact .cons step (ih h')

/-- Nothing is taken back but what is on loan, and nothing is given out twice. -/
theorem Step.given_back {loan loan' : Loan Address Link} {call : HostCall Address Link}
    (h : Step loan call loan') :
    loan.address?.toList ++ call.addressOut?.toList =
        call.addressBack?.toList ++ loan'.address?.toList ∧
      loan.link?.toList ++ call.linkOut?.toList = call.linkBack?.toList ++ loan'.link?.toList := by
  cases h <;> exact ⟨rfl, rfl⟩

theorem filterMap_cons_toList {α β : Type} (f : α → Option β) (x : α) (xs : List α) :
    (x :: xs).filterMap f = (f x).toList ++ xs.filterMap f := by
  rw [List.filterMap_cons]
  cases f x <;> rfl

/-- What was on loan and what was given out is what was taken back and what is still on
    loan, in this order. -/
theorem Runs.given_back {loan loan' : Loan Address Link} {calls : List (HostCall Address Link)}
    (h : Runs loan calls loan') :
    loan.address?.toList ++ calls.filterMap HostCall.addressOut? =
        calls.filterMap HostCall.addressBack? ++ loan'.address?.toList ∧
      loan.link?.toList ++ calls.filterMap HostCall.linkOut? =
        calls.filterMap HostCall.linkBack? ++ loan'.link?.toList := by
  induction h with
  | nil => exact ⟨List.append_nil _, List.append_nil _⟩
  | cons step _ ih =>
      obtain ⟨haddress, hlink⟩ := step.given_back
      simp only [filterMap_cons_toList]
      constructor
      · rw [← List.append_assoc, haddress, List.append_assoc, ih.1, List.append_assoc]
      · rw [← List.append_assoc, hlink, List.append_assoc, ih.2, List.append_assoc]

end Loan

-- ## One Save

/-- How a save ended, and what it asked of the host. -/
structure SaveRecord (Address Link : Type) where
  outcome : Except Stop SaveOutcome
  calls : List (HostCall Address Link)

namespace SaveRecord

/-- How a download of a text under a name goes: without an address, without a link, or
    until the link has been triggered. -/
inductive Made (text filename : String) : SaveRecord Address Link → Prop
  | unmade (e : Stop) : Made text filename
      ⟨.error e, [.createAddress (.ofText text) (.error e)]⟩
  | unattached (a : Address) (e : Stop) : Made text filename
      ⟨.error e, [.createAddress (.ofText text) (.ok a), .appendLink a filename (.error e),
        .revokeAddress a]⟩
  | clicked (a : Address) (l : Link) (landed : Except Stop Path) : Made text filename
      ⟨landed.map .saved, [.createAddress (.ofText text) (.ok a), .appendLink a filename (.ok l),
        .click l landed, .removeLink l, .revokeAddress a]⟩

/-- What a save of a text under a name owes to the host and to the user. -/
structure Kept (text filename : String) (r : SaveRecord Address Link) : Prop where
  /-- Nothing is on loan before, and nothing after. -/
  runs : Loan.Runs .nothing r.calls .nothing
  clicksOnce : r.calls.countP HostCall.isClick ≤ 1
  /-- It is saved where the link has landed if all three steps were made. -/
  saved : ∀ path, r.outcome = .ok (.saved path) ↔ ∃ a l,
    .createAddress (.ofText text) (.ok a) ∈ r.calls ∧
    .appendLink a filename (.ok l) ∈ r.calls ∧ .click l (.ok path) ∈ r.calls
  /-- It fails for the reason for which the first of them was not made. -/
  failed : ∀ e, r.outcome = .error e ↔ r.calls.findSome? HostCall.failure? = some e
  notCancelled : r.outcome ≠ .ok .cancelled

theorem Made.kept {text filename : String} {r : SaveRecord Address Link}
    (h : r.Made text filename) : r.Kept text filename := by
  cases h with
  | unmade e =>
      exact {
        runs := .cons .unmade .nil
        clicksOnce := Nat.zero_le 1
        saved := fun path => by simp
        failed := fun e' => by simp [List.findSome?, HostCall.failure?]
        notCancelled := nofun }
  | unattached a e =>
      exact {
        runs := .cons .made (.cons .unattached (.cons .revoked .nil))
        clicksOnce := Nat.zero_le 1
        saved := fun path => by simp
        failed := fun e' => by simp [List.findSome?, HostCall.failure?]
        notCancelled := nofun }
  | clicked a l landed =>
      exact {
        runs := .cons .made (.cons .attached (.cons .clicked (.cons .removed
          (.cons .revoked .nil))))
        clicksOnce := Nat.le_refl 1
        saved := fun path => by cases landed <;> simp [Except.map, eq_comm]
        failed := fun e' => by cases landed <;> simp [Except.map, List.findSome?, HostCall.failure?]
        notCancelled := by cases landed <;> simp [Except.map] }

end SaveRecord

-- ## Saves That Tell What They Ask

section Recording

variable {m : Type → Type} [Machine m] (host : DownloadHost m Address Link)

/-- A save by a download that tells what it asks. -/
def recordedSave (text filename : String) :
    m { r : SaveRecord Address Link // r.Made text filename } := do
  Machine.log .warn "save picker unavailable, falling back to download" [("filename", filename)]
  match ← host.createAddress (.ofText text) with
  | .error e => pure ⟨_, .unmade e⟩
  | .ok a =>
      match ← host.appendLink a filename with
      | .error e => do
          host.revokeAddress a
          pure ⟨_, .unattached a e⟩
      | .ok l => do
          let landed ← host.click l
          host.removeLink l
          host.revokeAddress a
          pure ⟨_, .clicked a l landed⟩

/-- Save texts under their names, one after the other. -/
def saveEach (saves : List (String × String)) : m (List (Except Stop SaveOutcome)) :=
  saves.mapM fun save => saveByDownload host save.1 save.2

/-- Saves one after the other that tell what they ask. -/
def recordedSaves : (saves : List (String × String)) →
    m { rs : List (SaveRecord Address Link) //
      List.Forall₂ (fun save r => r.Made save.1 save.2) saves rs }
  | [] => pure ⟨[], .nil⟩
  | save :: saves => do
      let r ← recordedSave host save.1 save.2
      let rs ← recordedSaves saves
      pure ⟨r.1 :: rs.1, .cons r.2 rs.2⟩

variable [LawfulMonad m]

theorem saveByDownload_eq (text filename : String) :
    saveByDownload host text filename =
      (fun r => r.1.outcome) <$> recordedSave host text filename := by
  simp only [saveByDownload, DownloadHost.download, recordedSave, map_bind, bind_assoc]
  congr 1; funext _; congr 1; funext made
  cases made with
  | error e => simp
  | ok a =>
      simp only [map_bind, bind_assoc]
      congr 1; funext attached
      cases attached with
      | error e => simp
      | ok l =>
          simp only [map_bind, bind_assoc, map_pure, pure_bind]
          congr 1; funext landed
          cases landed <;> rfl

theorem run_traced_createAddress (blob : Blob) (asked : List (HostCall Address Link)) :
    (host.traced.createAddress blob).run asked =
      (fun made => (made, asked ++ [.createAddress blob made])) <$> host.createAddress blob := by
  simp [DownloadHost.traced]

theorem run_traced_appendLink (a : Address) (filename : String)
    (asked : List (HostCall Address Link)) :
    (host.traced.appendLink a filename).run asked =
      (fun made => (made, asked ++ [.appendLink a filename made])) <$>
        host.appendLink a filename := by
  simp [DownloadHost.traced]

theorem run_traced_click (l : Link) (asked : List (HostCall Address Link)) :
    (host.traced.click l).run asked =
      (fun landed => (landed, asked ++ [.click l landed])) <$> host.click l := by
  simp [DownloadHost.traced]

theorem run_traced_removeLink (l : Link) (asked : List (HostCall Address Link)) :
    (host.traced.removeLink l).run asked =
      (fun x => (x, asked ++ [.removeLink l])) <$> host.removeLink l := by
  simp [DownloadHost.traced]

theorem run_traced_revokeAddress (a : Address) (asked : List (HostCall Address Link)) :
    (host.traced.revokeAddress a).run asked =
      (fun x => (x, asked ++ [.revokeAddress a])) <$> host.revokeAddress a := by
  simp [DownloadHost.traced]

theorem run_log (level : LogLevel) (message : String) (fields : List (String × String))
    (asked : List (HostCall Address Link)) :
    (Machine.log level message fields : StateT (List (HostCall Address Link)) m Unit).run asked =
      (fun x => (x, asked)) <$> Machine.log level message fields :=
  (StateT.run_lift _ _).trans (bind_pure_comp _ _)

/-- With a host that is recorded a save asks the same, and has it in the record. -/
theorem run_saveByDownload_traced (text filename : String)
    (asked : List (HostCall Address Link)) :
    (saveByDownload host.traced text filename).run asked =
      (fun r => (r.1.outcome, asked ++ r.1.calls)) <$> recordedSave host text filename := by
  simp only [saveByDownload, DownloadHost.download, recordedSave, StateT.run_bind, run_log,
    run_traced_createAddress, map_bind, bind_assoc, bind_map_left]
  congr 1; funext _; congr 1; funext made
  cases made with
  | error e => simp
  | ok a =>
      simp only [StateT.run_bind, run_traced_appendLink, map_bind, bind_assoc, bind_map_left]
      congr 1; funext attached
      cases attached with
      | error e => simp [run_traced_revokeAddress]
      | ok l =>
          simp only [StateT.run_bind, run_traced_click, run_traced_removeLink,
            run_traced_revokeAddress, map_bind, bind_assoc, bind_map_left]
          congr 1; funext landed
          cases landed <;> simp [Except.map]

-- ## Saves One After the Other

theorem saveEach_eq (saves : List (String × String)) :
    saveEach host saves = (fun rs => rs.1.map SaveRecord.outcome) <$> recordedSaves host saves := by
  induction saves with
  | nil => simp [saveEach, recordedSaves]
  | cons save saves ih =>
      rw [saveEach, List.mapM_cons, ← saveEach, ih, saveByDownload_eq, recordedSaves]
      simp

theorem run_saveEach_traced (saves : List (String × String))
    (asked : List (HostCall Address Link)) :
    (saveEach host.traced saves).run asked =
      (fun rs => (rs.1.map SaveRecord.outcome, asked ++ rs.1.flatMap SaveRecord.calls)) <$>
        recordedSaves host saves := by
  induction saves generalizing asked with
  | nil => simp [saveEach, recordedSaves]
  | cons save saves ih =>
      rw [saveEach, List.mapM_cons, ← saveEach, recordedSaves]
      simp only [StateT.run_bind, run_saveByDownload_traced, ih]
      simp

end Recording

theorem runs_flatMap {saves : List (String × String)} {rs : List (SaveRecord Address Link)}
    (h : List.Forall₂ (fun save r => r.Made save.1 save.2) saves rs) :
    Loan.Runs .nothing (rs.flatMap SaveRecord.calls) .nothing := by
  induction h with
  | nil => exact .nil
  | cons hmade _ ih => exact hmade.kept.runs.append ih

/-- Saves of any host give back what was on loan. Each save begins and ends with nothing
    on loan, triggers its link at most once, and is saved if its three steps were made and
    fails with the first that was not. All addresses and links that the host has
    given out are taken back once, in the same order, and none else. -/
theorem saveEach_gives_back {σ : Type} (host : DownloadHost (StateT σ (StateM World)) Address Link)
    (saves : List (String × String)) (asked : List (HostCall Address Link)) (s : σ) (w : World) :
    ∃ (rs : List (SaveRecord Address Link)) (s' : σ) (w' : World),
      ((saveEach host saves).run s).run w = ((rs.map SaveRecord.outcome, s'), w') ∧
      (((saveEach host.traced saves).run asked).run s).run w =
        (((rs.map SaveRecord.outcome, asked ++ rs.flatMap SaveRecord.calls), s'), w') ∧
      List.Forall₂ (fun save r => r.Kept save.1 save.2) saves rs ∧
      Loan.Runs .nothing (rs.flatMap SaveRecord.calls) .nothing ∧
      (rs.flatMap SaveRecord.calls).filterMap HostCall.addressOut? =
        (rs.flatMap SaveRecord.calls).filterMap HostCall.addressBack? ∧
      (rs.flatMap SaveRecord.calls).filterMap HostCall.linkOut? =
        (rs.flatMap SaveRecord.calls).filterMap HostCall.linkBack? := by
  rcases h : ((recordedSaves host saves).run s).run w with ⟨⟨⟨rs, hmade⟩, s'⟩, w'⟩
  have hruns := runs_flatMap hmade
  obtain ⟨haddresses, hlinks⟩ := hruns.given_back
  refine ⟨rs, s', w', ?_, ?_, hmade.imp fun _ _ h => h.kept, hruns, ?_, ?_⟩
  · rw [saveEach_eq]
    simp only [StateT.run_map, h]
    rfl
  · rw [run_saveEach_traced]
    simp only [StateT.run_map, h]
    rfl
  · simpa [Loan.address?] using haddresses
  · simpa [Loan.link?] using hlinks

end SimStudio
