import Walkthrough.Files.Tree

/-!
# Disks

All files as one tree, with the directory in it from which relative paths start.
-/

namespace Walkthrough

structure Disk where
  root : Tree
  /-- The names that lead down to the working directory. -/
  here : List Name

namespace Disk

def start (d : Disk) (p : Path) : List Name := if Path.isAbsolute p then [] else d.here

def resolve? (d : Disk) (p : Path) : Option Tree :=
  if p.isEmpty then none
  else
    match d.root.locate? (d.start p) p.parts with
    | some names => d.root.at? names
    | none => none

/-- The disk with a file at a path, if one can be written there. -/
def write? (d : Disk) (p : Path) (bytes : List UInt8) : Option Disk :=
  match p.parts.getLast? with
  | none => none
  | some name =>
    if Path.isVoid name || Path.isParent name then none
    else
      match d.root.locate? (d.start p) p.parts.dropLast with
      | none => none
      | some parents =>
        if d.root.canHoldFile parents name then
          some { d with root := Tree.add (.file bytes) (parents ++ [name]) d.root }
        else none

/-- A tree as the working directory, with nothing beside it. -/
def ofTree (t : Tree) : Disk := ⟨.directory [("work".toList, t)], ["work".toList]⟩

end Disk
end Walkthrough
