import SimStudio.CommandLine
import Std.Time.DateTime.Timestamp

/-!
# The Program

The machine on which the program really runs, and its entry. What is to be done
is decided elsewhere; here are the files, the clock and the streams that it is
done with.

## Main definitions

* `Real`: The machine.
* `main`: The entry of the program.
-/

namespace SimStudio

namespace Program

/-- A program on the real machine, with the least important level that goes to
    the log. -/
abbrev Real := ReaderT LogLevel IO

/-- The answer of an action, or another one if it fails. -/
def orElse {α : Type} (act : IO α) (otherwise : α) : Real α := do
  try act catch _ => pure otherwise

/-- Whether something can be opened at a path. -/
def opens (path : String) : IO Bool := do
  let _ ← IO.FS.Handle.mk path .read
  pure true

/-- Whether a path leads to a directory. -/
def isDirectory (p : Path) : Real Bool :=
  if p.text.isEmpty then pure false else orElse (opens (p.text ++ "/.")) false

/-- Random bytes as hexadecimal digits. -/
def randomDigits (count : Nat) : IO (List Char) := do
  let bytes ← IO.getRandomBytes count.toUSize
  pure (bytes.toList.flatMap fun b => Digits.padded 16 2 false b.toNat)

/-- A new empty file in a directory. -/
def newFile (directory lead ending : String) : Real (Option Path) :=
  orElse (do
    let digits ← randomDigits 8
    let path := directory ++ "/" ++ lead ++ String.ofList digits ++ ending
    let _ ← IO.FS.Handle.mk path .writeNew
    pure (some ⟨path⟩)) none

/-- An id of random digits, but for those that say that it is one. -/
def randomId : IO String := do
  let ds ← randomDigits 16
  let variant := match ds.drop 16 with
    | d :: _ => "89ab".toList.getD ((Digits.digit? d).getD 0 % 4) '8'
    | [] => '8'
  let part (first count : Nat) : List Char := (ds.drop first).take count
  pure (String.ofList (part 0 8 ++ '-' :: (part 8 4 ++ '-' :: '4' :: (part 13 3 ++
    '-' :: variant :: (part 17 3 ++ '-' :: part 20 12)))))

/-- The time by the clock. -/
def clock : IO Timestamp := do
  let time := (← Std.Time.Timestamp.now).val
  pure ((Timestamp.ofEpoch? time.second.val.toNat time.nano.val.toNat).getD default)

/-- Read a line with its end, byte by byte, so that nothing behind it is lost. -/
partial def readLine (input : IO.FS.Stream) (line : ByteArray) : IO ByteArray := do
  let byte ← input.read 1
  if byte.isEmpty then pure line
  else
    let line := line ++ byte
    if byte[0]? = some 10 then pure line else readLine input line

instance : Machine Real where
  readFile p := orElse (some <$> IO.FS.readBinFile p.text) none
  holds p := orElse (opens p.text) false
  isDirectory p := isDirectory p
  isFile p := do
    if ← isDirectory p then pure false else orElse (opens p.text) false
  createDirectories p := orElse (do
    IO.FS.createDirAll p.text
    pure true) false
  createTemporary directory := newFile directory.text ".tmp" ""
  stage := do
    let directory := (← IO.getEnv "TMPDIR").getD "/tmp"
    newFile directory "simcfg-blob-" ".yaml"
  write p content := orElse (do
    IO.FS.writeBinFile p.text content
    pure true) false
  -- A file is flushed when it is closed; nothing more can be asked of the system from here.
  sync p := orElse (opens p.text) false
  replace source target := orElse (do
    IO.FS.rename source.text target.text
    pure true) false
  remove p := orElse (IO.FS.removeFile p.text) ()
  readLine := do readLine (← IO.getStdin) ByteArray.empty
  print s := IO.print s
  prompt s := IO.eprint s
  log level message fields := do
    if level.rank ≤ (← read).rank then
      let things := String.join (fields.map fun (name, thing) => " " ++ name ++ "=" ++ thing)
      IO.eprintln (level.name ++ " " ++ message ++ things)
  currentDirectory := do return ⟨(← IO.currentDir).toString⟩
  interactive := do return (← (← IO.getStdin).isTty) && (← (← IO.getStderr).isTty)
  freshId := randomId
  now := clock

/-- What a user gets to see who asks how the program is used. -/
def usage : String :=
  "Usage: simcfg [--config FILE] [-v] COMMAND\n\nCommands: " ++
    ", ".intercalate (CommandLine.commandForms.map Prod.fst) ++ "\n"

/-- Answer what is no command. -/
def reply : CommandLine.Reply → IO UInt8
  | .misuse => do
      IO.eprint usage
      pure 2
  | .help => do
      IO.print usage
      pure 0
  | .version name => do
      IO.println (name ++ " " ++ CommandLine.programVersion)
      pure 0

/-- Carry out a command line. -/
def carryOut (invocation : CommandLine.Invocation) : IO UInt8 := do
  let act : Step Real Unit := invocation.command.run invocation.settingsFile
  match ← act.run.run (LogLevel.ofVerbosity invocation.verbosity) with
  | .ok () => pure 0
  | .error (.failed f) => do
      IO.eprintln ("Error: " ++ f.message)
      pure f.exitCode
  | .error (.faulted f) => do
      IO.eprintln f.message
      pure 101

end Program

end SimStudio

/-- The entry of the program. -/
def main (words : List String) : IO UInt32 := do
  let code ← match SimStudio.CommandLine.Invocation.ofWords words with
    | .error r => SimStudio.Program.reply r
    | .ok invocation => SimStudio.Program.carryOut invocation
  pure code.toUInt32
