import Walkthrough.Line
import Walkthrough.Roster
import Walkthrough.Value

/-!
# Function headers

The name and the parameter names of the function that a line defines.  Parameters have
no values yet: each holds the placeholder.
-/

namespace Walkthrough.Line

structure Header where
  name : Text
  parameters : Roster Value

namespace Header

/-- The name after a keyword, which ends at an opening parenthesis or a blank. -/
def nameAfter? (keyword : String) (line : Text) : Option Text :=
  (Text.cut? keyword.toList line).map fun (_, rest) =>
    Text.upTo (fun c => c = '(' || isBlank c) (Text.trim rest)

/-- The first word with an opening parenthesis, up to it. -/
def methodName? (line : Text) : Option Text :=
  if has "public static" line then
    ((Text.words line).find? (·.contains '(')).map (Text.upTo (· = '('))
  else none

def functionName (line : Text) : Text :=
  (nameAfter? "def " line <|> nameAfter? "function " line <|> methodName? line).getD
    "unknown".toList

/-- The text between the first opening and the first closing parenthesis of a line, if
they stand in this order. -/
def parameterText? (line : Text) : Option Text :=
  match Text.cut? ['('] line with
  | none => none
  | some (before, after) =>
    if before.contains ')' then none else (Text.cut? [')'] after).map Prod.fst

/-- The name of a parameter ends at a colon or a blank. -/
def parameterName (parameter : Text) : Text := Text.upTo (fun c => c = ':' || isBlank c) parameter

/-- The names of the parameters in the text between the parentheses. -/
def namesIn (t : Text) : List Text :=
  (((t.splitOn ',').map Text.trim).filter (!·.isEmpty)).map parameterName

def parameterNames (line : Text) : List Text :=
  match parameterText? line with
  | none => []
  | some t => namesIn t

def ofNames (name : Text) (parameters : List Text) : Header :=
  ⟨name, .ofList (parameters.map fun parameter => (parameter, .placeholder))⟩

def read (line : Text) : Header := ofNames (functionName line) (parameterNames line)

end Header
end Walkthrough.Line
