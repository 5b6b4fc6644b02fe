import SimStudio.Save

/-!
# Downloads

Saving where nobody can be asked for a place. The host of a download gives an
address to the content, attaches a link to the address, and triggers the link.
Address and link are on loan: whatever happens, each is given back once, the
link before its address.

The host can be anything that does these five things. One that works with files
stages the content as a file of its own and lets it land in a directory, under
the wanted name or, if that is taken, under a numbered one. It counts in words of
31 bits, and to run out of numbers is a fault. What is on loan is given back then,
too.

## Main definitions

* `Blob`: Content with its kind.
* `DownloadHost`: What a download needs.
* `DownloadHost.download`: A download, with all loans given back.
* `DownloadHost.traced`: A host that records what is asked of it.
* `uniqueDestination`: Where a file lands.
* `directoryHost`: The host that works with files.
-/

namespace SimStudio

/-- Content with its kind. -/
structure Blob where
  bytes : ByteArray
  kind : String
  deriving Inhabited

/-- A configuration as content. -/
def Blob.ofText (text : String) : Blob := ⟨text.toUTF8, "text/yaml;charset=utf-8"⟩

/-- What a download needs. -/
structure DownloadHost (m : Type → Type) (Address Link : Type) where
  /-- Give an address to content. -/
  createAddress : Blob → m (Except Stop Address)
  /-- Take an address back. -/
  revokeAddress : Address → m Unit
  /-- Attach a link to an address, for a file of a name. -/
  appendLink : Address → String → m (Except Stop Link)
  /-- Take a link back. -/
  removeLink : Link → m Unit
  /-- Trigger a link; it tells where the file landed. -/
  click : Link → m (Except Stop Path)

/-- What can be asked of a host, with the answer. -/
inductive HostCall (Address Link : Type)
  | createAddress (blob : Blob) (made : Except Stop Address)
  | appendLink (address : Address) (filename : String) (made : Except Stop Link)
  | click (link : Link) (landed : Except Stop Path)
  | removeLink (link : Link)
  | revokeAddress (address : Address)
  deriving Inhabited

namespace DownloadHost

variable {m : Type → Type} [Monad m] {Address Link : Type}

/-- Download a text under a name. -/
def download (host : DownloadHost m Address Link) (text filename : String) :
    m (Except Stop Path) := do
  match ← host.createAddress (Blob.ofText text) with
  | .error e => pure (.error e)
  | .ok address =>
      match ← host.appendLink address filename with
      | .error e => do
          host.revokeAddress address
          pure (.error e)
      | .ok link => do
          let landed ← host.click link
          host.removeLink link
          host.revokeAddress address
          pure landed

/-- The host with a record of what is asked of it. -/
def traced (host : DownloadHost m Address Link) :
    DownloadHost (StateT (List (HostCall Address Link)) m) Address Link :=
  let record (call : HostCall Address Link) : StateT (List (HostCall Address Link)) m Unit :=
    modify (· ++ [call])
  { createAddress := fun blob => do
      let made ← host.createAddress blob
      record (.createAddress blob made)
      pure made
    revokeAddress := fun address => do
      host.revokeAddress address
      record (.revokeAddress address)
    appendLink := fun address filename => do
      let made ← host.appendLink address filename
      record (.appendLink address filename made)
      pure made
    removeLink := fun link => do
      host.removeLink link
      record (.removeLink link)
    click := fun link => do
      let landed ← host.click link
      record (.click link landed)
      pure landed }

end DownloadHost

/-- The stem and the extension of a file name. -/
def splitFilename (filename : String) : String × Option String :=
  match Path.splitLastPoint? filename.toList with
  | some (stem, extension) =>
      if stem.isEmpty then (filename, none)
      else (String.ofList stem, some (String.ofList extension))
  | none => (filename, none)

/-- A file name with a number. -/
def numberedName (filename : String) (n : Nat) : String :=
  match splitFilename filename with
  | (stem, some extension) => s!"{stem} ({n}).{extension}"
  | (stem, none) => s!"{stem} ({n})"

variable {m : Type → Type} [Machine m]

/-- The first numbered name that is free in a directory, from a number on, if only so
    many numbers are left. -/
def firstFree (directory : Path) (filename : String) : (left n : Nat) → m (Except Fault Path)
  | 0, _ => pure (.error .additionOverflow)
  | left + 1, n => do
      let candidate := directory.join (numberedName filename n)
      if ← Machine.holds candidate then firstFree directory filename left (n + 1)
      else pure (.ok candidate)

/-- The greatest number in a name. The number that comes next has to be a word of 31
    bits, too. -/
def numberLimit : Nat := 2 ^ 31 - 2

/-- Where a file lands: under its name, or under the first numbered one that is
    free. -/
def uniqueDestination (directory : Path) (filename : String) : m (Except Fault Path) := do
  let candidate := directory.join filename
  if ← Machine.holds candidate then firstFree directory filename numberLimit 1
  else pure (.ok candidate)

/-- A staged file, and where it is to land. -/
structure StagedLink where
  source : Path
  target : Path
  deriving DecidableEq, Inhabited

/-- The host that stages content as a file and lets it land in a directory. -/
def directoryHost (directory : Path) : DownloadHost m Path StagedLink where
  createAddress blob := do
    match ← Machine.stage with
    | some staged =>
        if ← Machine.write staged blob.bytes then do
          Machine.log .debug "staged blob" [("path", staged.text), ("mime", blob.kind)]
          pure (.ok staged)
        else do
          Machine.remove staged
          pure (.error (.failed (.save .staging)))
    | none => pure (.error (.failed (.save .staging)))
  revokeAddress staged := Machine.remove staged
  appendLink staged filename := do
    match ← uniqueDestination directory filename with
    | .ok target => pure (.ok ⟨staged, target⟩)
    | .error f => pure (.error (.faulted f))
  removeLink link := Machine.log .debug "released download link" [("destination", link.target.text)]
  click link := do
    match ← Machine.readFile link.source with
    | none => pure (.error (.failed (.save .stagedRead)))
    | some bytes =>
        match ← writeAtomically link.target bytes with
        | .ok () => pure (.ok link.target)
        | .error e => pure (.error (.failed e))

end SimStudio
