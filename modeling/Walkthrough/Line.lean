import Walkthrough.Text.Blank

/-!
# Lines of a snippet

What one line of a snippet is about.  Every test looks for a piece of text anywhere in
the line, and of the kinds the first one that fits counts; a line is neither parsed nor
tokenized.
-/

namespace Walkthrough.Line

inductive Kind where
  | functionDefinition
  | condition
  | loop
  | assignment
  | print
  | return
  | statement
  deriving DecidableEq

def has (piece : String) (line : Text) : Bool := Text.occursIn piece.toList line

def isCondition (line : Text) : Bool := has "if " line

def isLoop (line : Text) : Bool := has "for " line || has "while " line

def isReturn (line : Text) : Bool := has "return" line

/-- There is an equals sign in the line and no two stand side by side. -/
def isAssignment (line : Text) : Bool := line.contains '=' && !has "==" line

/-- A line that opens a stack frame. -/
def isFunctionDefinition (line : Text) : Bool :=
  has "def " line || has "function " line || has "public static" line

/-- For its description a line with any equals sign, in a comparison too, assigns. -/
def kind (line : Text) : Kind :=
  if has "def " line || has "function " line then .functionDefinition
  else if isCondition line then .condition
  else if isLoop line then .loop
  else if line.contains '=' then .assignment
  else if has "print" line || has "System.out.println" line || has "console.log" line then .print
  else if isReturn line then .return
  else .statement

/-- The number of characters of a line that its description repeats at most. -/
def previewLength : Nat := 50

def describe (line : Text) : Text :=
  match kind line with
  | .functionDefinition => "Defining a function".toList
  | .condition => "Checking condition".toList
  | .loop => "Starting loop iteration".toList
  | .assignment => "Assigning value to variable".toList
  | .print => "Printing output".toList
  | .return => "Returning value".toList
  | .statement => "Executing line: ".toList ++ line.take previewLength

/-- A line worth a step: neither blank nor a comment. -/
def isSignificant (line : Text) : Bool :=
  let trimmed := Text.trim line
  !(trimmed.isEmpty || "//".toList.isPrefixOf trimmed || ['#'].isPrefixOf trimmed)

end Walkthrough.Line
