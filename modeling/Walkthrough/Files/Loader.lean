import Walkthrough.Files.Tree
import Walkthrough.Service.Request
import Walkthrough.Text.Order
import Walkthrough.Text.Utf8

/-!
# Loading snippets

A file is a snippet if its language is known, from its extension unless it is given, and
it can be read and is UTF-8.  A folder is searched to the bottom for files with an extension
of a language; directories of build products and of other people's code are left out.  The
snippets are in the order of their paths as these are shown, so files whose paths are shown
alike stay in the order in which they were found.
-/

namespace Walkthrough

structure LoadedSnippet where
  /-- The path as it is shown. -/
  path : Text
  snippet : Snippet

inductive LoadError where
  | unknownLanguage (path : Path)
  | unreadableFile (path : Path)
  | unreadableDirectory (path : Path)

def LoadError.message : LoadError → Text
  | .unknownLanguage path =>
    "Cannot infer language of ".toList ++ path.display ++ "; pass --language".toList
  | .unreadableFile path => "Failed to read file ".toList ++ path.display
  | .unreadableDirectory path => "Failed to read directory ".toList ++ path.display

namespace Loader

def chooseLanguage? (language : Option Language) (path : Path) : Option Language :=
  match language with
  | some l => some l
  | none => Language.ofPath? path

/-- The snippet of a file, from its bytes if it could be read. -/
def loadFile (language : Option Language) (path : Path) (bytes : Option (List UInt8)) :
    Except LoadError LoadedSnippet :=
  match chooseLanguage? language path with
  | none => .error (.unknownLanguage path)
  | some l =>
    match bytes.bind Text.ofUtf8? with
    | none => .error (.unreadableFile path)
    | some code => .ok ⟨path.display, code, l⟩

def leftOut : List Name := ["target".toList, ".git".toList, "node_modules".toList]

def isLeftOut (path : Path) : Bool := (Path.lastName? path).any leftOut.contains

/-- The snippet of a file below a folder, if it is one, from its bytes if they can be read. -/
def fileSnippet (language : Option Language) (path : Path) (bytes : Option (List UInt8)) :
    List LoadedSnippet :=
  if (Language.ofPath? path).isSome then
    match loadFile language path bytes with
    | .ok loaded => [loaded]
    | .error _ => []
  else []

mutual
/-- The snippets below a path, in the order of the entries. -/
def collect (language : Option Language) (path : Path) :
    Tree → Except LoadError (List LoadedSnippet)
  | .file bytes => .ok (fileSnippet language path (some bytes))
  | .sealed => .ok (fileSnippet language path none)
  | .directory entries =>
    if isLeftOut path then .ok [] else collectEntries language path entries
  | .locked => if isLeftOut path then .ok [] else .error (.unreadableDirectory path)

def collectEntries (language : Option Language) (path : Path) :
    List (Name × Tree) → Except LoadError (List LoadedSnippet)
  | [] => .ok []
  | (name, t) :: rest => do
    let snippets ← collect language (path.join name) t
    let others ← collectEntries language path rest
    return snippets ++ others
end

def sortByPath (snippets : List LoadedSnippet) : List LoadedSnippet :=
  snippets.mergeSort fun a b => !Text.precedes b.path a.path

/-- The snippets of a folder in the order of their paths, from its entries if it could be
read. -/
def loadFolder (language : Option Language) (path : Path) (entries : Option (List (Name × Tree))) :
    Except LoadError (List LoadedSnippet) :=
  if isLeftOut path then .ok []
  else
    match entries with
    | none => .error (.unreadableDirectory path)
    | some entries => (collectEntries language path entries).map sortByPath

end Loader
end Walkthrough
