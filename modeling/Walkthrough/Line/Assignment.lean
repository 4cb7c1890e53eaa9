import Walkthrough.Line
import Walkthrough.Text.Fields

/-!
# Assignments

The target and the right-hand side of a line with an equals sign.  The right-hand side
is the text up to the second equals sign or the end.
-/

namespace Walkthrough.Line

structure Assignment where
  target : Text
  /-- Nothing when the line ends with its first equals sign. -/
  rhs : Option Text

namespace Assignment

def modifiers : List Text :=
  ["var", "let", "const", "int", "String", "double", "float", "final"].map String.toList

/-- The length of the declaration modifier with its blanks that a text starts with; zero
if it starts with none.  At least one blank has to follow the modifier. -/
def modifierLength (t : Text) : Nat :=
  match modifiers.find? (·.isPrefixOf t) with
  | none => 0
  | some modifier =>
    let blanks := ((t.drop modifier.length).takeWhile isBlank).length
    if blanks = 0 then 0 else modifier.length + blanks

/-- The text less the first `skip` characters and less all modifiers, which may start in
the middle of a word. -/
def withoutModifiers (skip : Nat) : Text → Text
  | [] => []
  | c :: rest =>
    match skip with
    | skip + 1 => withoutModifiers skip rest
    | 0 =>
      match modifierLength (c :: rest) with
      | 0 => c :: withoutModifiers 0 rest
      | length + 1 => withoutModifiers length rest

/-- The target ends at a bracket or a blank. -/
def targetOf (left : Text) : Text :=
  Text.upTo (fun c => c = '[' || isBlank c) (withoutModifiers 0 (Text.trim left))

def read (line : Text) : Assignment :=
  match Text.fields '=' line with
  | left :: rhs :: _ => ⟨targetOf left, some rhs⟩
  | _ => ⟨"unknown".toList, none⟩

end Assignment
end Walkthrough.Line
