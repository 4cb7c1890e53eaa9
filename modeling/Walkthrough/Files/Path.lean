import Walkthrough.Language
import Walkthrough.Text.Lossy

/-!
# Paths

A path is made of bytes, with its parts between slashes; empty parts and parts of a single
dot say nothing about the place.  The bytes need not be those of a text: `Path.display` is
what is shown of them.
-/

namespace Walkthrough

/-- The name of an entry in a directory. -/
abbrev Name := List UInt8

abbrev Path := List UInt8

/-- A text stands for the path, or the name, of its bytes. -/
instance : Coe Text Path := ⟨Text.toUtf8⟩

namespace Path

def slash : UInt8 := 0x2F

def dot : UInt8 := 0x2E

def parts (p : Path) : List Name := p.splitOn slash

def isVoid (part : Name) : Bool := part.isEmpty || part == [dot]

def isParent (part : Name) : Bool := part == [dot, dot]

def isAbsolute (p : Path) : Bool := p.head? == some slash

/-- The name of what the path leads to, unless the path ends by going up. -/
def lastName? (p : Path) : Option Name :=
  match (p.parts.filter fun part => !isVoid part).getLast? with
  | none => none
  | some part => if isParent part then none else some part

/-- What comes after the last dot of a name, unless the name starts with that dot. -/
def extensionOf? (name : Name) : Option Name :=
  match name.reverse.dropWhile (· != dot) with
  | [] | [_] => none
  | _ => some (name.reverse.takeWhile (· != dot)).reverse

def extension? (p : Path) : Option Name := p.lastName?.bind extensionOf?

/-- The path of an entry of the directory at `p`. -/
def join (p : Path) (name : Name) : Path :=
  if p = [] ∨ p.getLast? = some slash then p ++ name else p ++ slash :: name

/-- The path as a text, with a replacement for what is not UTF-8. -/
def display (p : Path) : Text := Text.lossy p

end Path

/-- The language of a file by the extension of its path, which has to be UTF-8. -/
def Language.ofPath? (p : Path) : Option Language :=
  ((Path.extension? p).bind Text.ofUtf8?).bind ofExtension?

end Walkthrough
