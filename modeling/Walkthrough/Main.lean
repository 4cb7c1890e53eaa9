import Std.Time.DateTime.Timestamp
import Walkthrough.CommandLine

/-!
# The program

Reads what the arguments name, leaves the decision to `CommandLine.plan` and carries out its
effects.  Only paths that are UTF-8 can be opened here.
-/

namespace Walkthrough.Main

def openable? (path : Path) : Option String := (Text.ofUtf8? path).map String.ofList

/-- The bytes of a file, if it can be read. -/
def readFile (path : Path) : IO (Option (List UInt8)) := do
  let some name := openable? path | return none
  try return some (← IO.FS.readBinFile name).toList
  catch _ => return none

/-- The directories below a path and the files in them that can be snippets. -/
partial def readEntries (path : Path) : IO (List (Name × Tree)) := do
  let some opened := openable? path | throw (IO.userError "not UTF-8")
  let entries ← (IO.FS.DirEntry.mk opened "").root.readDir
  let found ← entries.toList.mapM fun entry => do
    let name : Name := entry.fileName.toUTF8.toList
    let below := path.join name
    if ← entry.path.isDir then
      if Loader.isLeftOut below then return none
      try return some (name, .directory (← readEntries below))
      catch _ => return some (name, .locked)
    if (Language.ofPath? below).isNone then return none
    match ← readFile below with
    | some bytes => return some (name, .file bytes)
    | none => return some (name, .sealed)
  return found.filterMap id

def readFolder (path : Path) : IO (Option (List (Name × Tree))) := do
  try return some (← readEntries path)
  catch _ => return none

/-- The paths that the arguments name, as files and as folders. -/
def pathsOf : Option CommandLine.Task → List Path × List Path
  | some (.visualize inputs folders _ _ _) => (inputs, folders)
  | some (.execute input _) => ([input], [])
  | _ => ([], [])

def surroundingsOf (inputs folders : List Path) : IO CommandLine.Surroundings := do
  let files ← inputs.mapM fun path => return (path, ← readFile path)
  let directories ← folders.mapM fun path => return (path, ← readFolder path)
  return {
    fileAt := fun path => (files.lookup path).join
    folderAt := fun path => (directories.lookup path).join }

/-- The number of snippets that are loaded. -/
def countSnippets (files : CommandLine.Surroundings) : Option CommandLine.Task → Nat
  | some (.visualize inputs folders language _ _) =>
    match CommandLine.load files inputs folders language with
    | .ok loaded => loaded.length
    | .error _ => 0
  | _ => 0

def randomAddress : IO Address := return Address.numbered (← IO.rand 0 0xFFFFFFFF)

def newRun (snippets : Nat) : IO Run := do
  let now := (← Std.Time.Timestamp.now).toMillisecondsSinceUnixEpoch.val.toNat
  let candidates ← (List.replicate (Trace.lineLimit * snippets) ()).mapM fun _ => randomAddress
  return ⟨candidates, fun _ => now, 0⟩

def fail (failure : CommandLine.Failure) : IO UInt32 := do
  IO.eprintln (String.ofList failure.message)
  return .ofNat failure.exitCode

/-- Whether a file could be written. -/
def writeFile (path : Path) (t : Text) : IO Bool := do
  let some name := openable? path | return false
  try
    IO.FS.writeFile name (String.ofList t)
    return true
  catch _ => return false

def carryOut : List CommandLine.Effect → IO UInt32
  | [] => return 0
  | .print t :: rest => do
    IO.print (String.ofList t)
    carryOut rest
  | .write path t :: rest => do
    if ← writeFile path t then carryOut rest else fail (.unwritable path)

end Walkthrough.Main

open Walkthrough in
def main (arguments : List String) : IO UInt32 := do
  let arguments := arguments.map String.toList
  let task := CommandLine.readArguments? arguments
  let (inputs, folders) := Main.pathsOf task
  let files ← Main.surroundingsOf inputs folders
  let run ← Main.newRun (Main.countSnippets files task)
  match CommandLine.plan files run arguments with
  | .error failure => Main.fail failure
  | .ok effects => Main.carryOut effects
