import Walkthrough.CommandLine.Arguments
import Walkthrough.Files.Disk
import Walkthrough.Files.Loader
import Walkthrough.Service

/-!
# The command line

What a run of the program does with its arguments and the files around it.  A run that gets
as far has some effects, one after the other, and ends with the first one that fails.
-/

namespace Walkthrough.CommandLine

/-- What can be read at a path. -/
structure Surroundings where
  fileAt : Path → Option (List UInt8)
  folderAt : Path → Option (List (Name × Tree))

/-- Files that can be read and written, whatever states `σ` they are in. -/
structure FileSystem (σ : Type) where
  around : σ → Surroundings
  /-- The files after one was written at a path, with nothing else in it, if it can be. -/
  write? : σ → Path → List UInt8 → Option σ

inductive Effect where
  | print (t : Text)
  | write (path : Path) (t : Text)

inductive Failure where
  | badArguments
  | unloadable (error : LoadError)
  | nothingLoaded
  /-- An output file was given for more than one snippet. -/
  | severalForOutput (count : Nat)
  | unwritable (path : Path)
  | unexecuted (message : Text)
  | noOutput

def Failure.exitCode : Failure → Nat
  | .badArguments => 2
  | _ => 1

def Failure.message : Failure → Text
  | .badArguments => "Invalid arguments".toList
  | .unloadable error => error.message
  | .nothingLoaded =>
    "Please provide at least one readable --input <file> or --folder <dir>".toList
  | .severalForOutput count =>
    "--output accepts a single input; got ".toList ++ Text.ofNat count
  | .unwritable path => "Failed to write file ".toList ++ path.display
  | .unexecuted message => message
  | .noOutput => "Execution produced no output".toList

/-- The inputs that can be loaded, and then the snippets of the folders, all of which
have to be readable. -/
def load (files : Surroundings) (inputs folders : List Path) (language : Option Language) :
    Except LoadError (List LoadedSnippet) := do
  let fromInputs := inputs.filterMap fun path =>
    (Loader.loadFile language path (files.fileAt path)).toOption
  let fromFolders ← folders.mapM fun path =>
    Loader.loadFolder language path (files.folderAt path)
  return fromInputs ++ fromFolders.flatten

def heading (l : LoadedSnippet) : Text :=
  "== ".toList ++ l.path ++ " (".toList ++ l.snippet.language.name ++ ")\n".toList

/-- What is done for one trace: its rendering is written into the output file, or printed,
under a heading if there are several snippets. -/
def putTrace (format : Export.Format) (several : Bool) (output : Option Path) (l : LoadedSnippet)
    (steps : Trace) : List Effect :=
  match output with
  | some path => [.write path (Trace.render format steps)]
  | none =>
    (if several then [.print (heading l)] else []) ++
      [.print (Trace.render format steps ++ ['\n'])]

/-- A snippet without a trace is passed over. -/
def put (format : Export.Format) (several : Bool) (output : Option Path) (l : LoadedSnippet)
    (response : Response) : List Effect :=
  match response.steps? with
  | none => []
  | some steps => putTrace format several output l steps

/-- The effects for all loaded snippets, which are traced as one batch. -/
def effects (run : Run) (loaded : List LoadedSnippet) (format : Export.Format)
    (output : Option Path) : List Effect :=
  (loaded.zip (Snippet.visualizeAll run (loaded.map (·.snippet)))).flatMap fun (l, response) =>
    put format (1 < loaded.length) output l response

def visualize (run : Run) (loaded : List LoadedSnippet) (format : Export.Format)
    (output : Option Path) : Except Failure (List Effect) :=
  if loaded.isEmpty then .error .nothingLoaded
  else if output.isSome && 1 < loaded.length then .error (.severalForOutput loaded.length)
  else .ok (effects run loaded format output)

/-- The output of an execution that succeeded is printed. -/
def printOutcome (response : Response) : Except Failure (List Effect) :=
  match response.isSuccess, response.output?, response.error? with
  | true, some output, _ => .ok [.print (output ++ ['\n'])]
  | _, _, some error => .error (.unexecuted error)
  | _, _, none => .error .noOutput

def perform (files : Surroundings) (run : Run) : Task → Except Failure (List Effect)
  | .visualize inputs folders language format output =>
    match load files inputs folders language with
    | .error error => .error (.unloadable error)
    | .ok loaded => visualize run loaded format output
  | .execute input language =>
    match Loader.loadFile language input (files.fileAt input) with
    | .error error => .error (.unloadable error)
    | .ok loaded => printOutcome (loaded.snippet.execute run)
  | .sample language => .ok [.print (language.sample ++ ['\n'])]

/-- The effects of a run with the given arguments. -/
def plan (files : Surroundings) (run : Run) (arguments : List Text) :
    Except Failure (List Effect) :=
  match readArguments? arguments with
  | none => .error .badArguments
  | some task => perform files run task

/-- What is left of a run: the exit code, the printed text and the files. -/
structure Outcome (σ : Type) where
  exitCode : Nat
  stdout : Text
  files : σ

namespace FileSystem

variable {σ : Type} (F : FileSystem σ)

/-- The effects one after the other, up to the first file that cannot be written. -/
def carryOut : List Effect → Text → σ → Outcome σ
  | [], stdout, files => ⟨0, stdout, files⟩
  | .print t :: rest, stdout, files => carryOut rest (stdout ++ t) files
  | .write path t :: rest, stdout, files =>
    match F.write? files path (Text.toUtf8 t) with
    | some written => carryOut rest stdout written
    | none => ⟨(Failure.unwritable path).exitCode, stdout, files⟩

def finish (files : σ) : Except Failure (List Effect) → Outcome σ
  | .error failure => ⟨failure.exitCode, [], files⟩
  | .ok effects => F.carryOut effects [] files

def perform (files : σ) (run : Run) (task : Task) : Outcome σ :=
  F.finish files (CommandLine.perform (F.around files) run task)

/-- A run with the given arguments. -/
def start (files : σ) (run : Run) (arguments : List Text) : Outcome σ :=
  F.finish files (plan (F.around files) run arguments)

end FileSystem

def Surroundings.ofDisk (d : Disk) : Surroundings where
  fileAt path := (d.resolve? path).bind Tree.bytes?
  folderAt path := (d.resolve? path).bind Tree.entries?

def Surroundings.ofTree (t : Tree) : Surroundings := .ofDisk (.ofTree t)

def disks : FileSystem Disk where
  around := .ofDisk
  write? := Disk.write?

/-- A run in the directory at the top of a tree. -/
def runIn (t : Tree) (run : Run) (arguments : List Text) : Outcome Disk :=
  disks.start (.ofTree t) run arguments

end Walkthrough.CommandLine
