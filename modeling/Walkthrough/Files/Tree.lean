import Walkthrough.Files.Path
import Walkthrough.Roster

/-!
# File trees

Files and directories as a value.  Names lead from the top of a tree downward, and the
parts of a path also lead up again, but not above the top.  A part of a path, even an empty
one, can only follow a directory.
-/

namespace Walkthrough

inductive Tree where
  | file (bytes : List UInt8)
  | directory (entries : List (Name × Tree))
  /-- A file that cannot be read. -/
  | sealed
  /-- A directory that cannot be read. -/
  | locked
  deriving Inhabited

namespace Tree

def bytes? : Tree → Option (List UInt8)
  | .file bytes => some bytes
  | _ => none

def entries? : Tree → Option (List (Name × Tree))
  | .directory entries => some entries
  | _ => none

/-- What stands under names that lead down from the top. -/
def at? : Tree → List Name → Option Tree
  | t, [] => some t
  | .directory entries, name :: rest =>
    match entries.lookup name with
    | some t => t.at? rest
    | none => none
  | _, _ :: _ => none

def isDirectoryAt (t : Tree) (names : List Name) : Bool :=
  ((t.at? names).bind entries?).isSome

/-- The names that lead down to the end of a path that starts under the names `here`. -/
def locate? (t : Tree) (here : List Name) : List Name → Option (List Name)
  | [] => some here
  | part :: rest =>
    if !t.isDirectoryAt here then none
    else if Path.isVoid part then t.locate? here rest
    else if Path.isParent part then t.locate? here.dropLast rest
    else if (t.at? (here ++ [part])).isSome then t.locate? (here ++ [part]) rest
    else none

/-- The tree with `item` under the given names.  Directories on the way are made, and an
empty directory leaves a directory as it is. -/
def add (item : Tree) : List Name → Tree → Tree
  | [], t =>
    match item, t with
    | .directory [], .directory _ => t
    | _, _ => item
  | name :: rest, t =>
    let entries := t.entries?.getD []
    let child := (entries.lookup name).getD (.directory [])
    .directory (Roster.enterEntry name (item.add rest child) entries)

/-- Whether a file can be written under names that lead down from the top: into a
directory that can be read, and in place of nothing but a file. -/
def canHoldFile (t : Tree) (parents : List Name) (name : Name) : Bool :=
  t.isDirectoryAt parents &&
    match t.at? (parents ++ [name]) with
    | none | some (.file _) => true
    | _ => false

theorem at?_append (t : Tree) (above below : List Name) :
    t.at? (above ++ below) = (t.at? above).bind (·.at? below) := by
  induction above generalizing t with
  | nil => cases t <;> simp [at?]
  | cons name above ih =>
    cases t with
    | directory entries =>
      simp only [List.cons_append, at?]
      cases entries.lookup name with
      | none => rfl
      | some child => exact ih child
    | file | sealed | locked => simp [at?]

end Tree
end Walkthrough
