import Walkthrough.Text.Slice
import Walkthrough.Trace.Synthesis

/-!
# Synthesis with its checks

The sweep as it is run: texts are cut by positions and lists are read by indices, so that a
position or an index out of range breaks the whole synthesis off.  Each definition stands
beside one of the same sweep without positions; `Checked.synthesize_eq` says that the two
agree, so nothing is ever broken off.
-/

namespace Walkthrough.Checked

open Line

def nameAfter? (keyword : String) (line : Text) : Except Panic (Option Text) :=
  match Text.find? keyword.toList line with
  | none => return none
  | some position => do
    let rest ← Text.sliceFrom line (position + Text.byteLength keyword.toList)
    return some (Text.upTo (fun c => c = '(' || isBlank c) (Text.trim rest))

def functionName (line : Text) : Except Panic Text := do
  match ← nameAfter? "def " line with
  | some name => return name
  | none =>
    match ← nameAfter? "function " line with
    | some name => return name
    | none => return (Header.methodName? line).getD "unknown".toList

def parameterText? (line : Text) : Except Panic (Option Text) :=
  match Text.find? ['('] line, Text.find? [')'] line with
  | some opening, some closing =>
    if closing ≤ opening then return none
    else some <$> Text.slice line (opening + 1) closing
  | _, _ => return none

def header (line : Text) : Except Panic Header := do
  let name ← functionName line
  match ← parameterText? line with
  | none => return .ofNames name []
  | some parameters => return .ofNames name (Header.namesIn parameters)

def assignment (line : Text) : Except Panic Assignment :=
  let parts := Text.fields '=' line
  if parts.length < 2 then return ⟨"unknown".toList, none⟩
  else do
    let left ← entryAt parts 0
    let rhs ← entryAt parts 1
    return ⟨Assignment.targetOf left, some rhs⟩

def elements? (t : Text) : Except Panic (Option (List Value)) :=
  match Text.find? ['['] t with
  | none => return some []
  | some opening =>
    match Text.findLast? ']' t with
    | none => return none
    | some closing =>
      if closing ≤ opening then return none
      else do
        let content ← Text.slice t (opening + 1) closing
        return some (Value.elementsIn content)

def inferNormalized (t : Text) (environment : Environment) : Except Panic Value :=
  match Value.readNumber? t with
  | some number => return number
  | none =>
    if t.head?.any Value.isQuote then return .text (Value.withoutEnds t)
    else do
      match ← if t.contains '[' || t.contains '\x7b' then elements? t else pure none with
      | some items => return .list items
      | none => return (environment.get? t).getD .placeholder

def valueOf (environment : Environment) (rhs : Option Text) : Except Panic Value :=
  match rhs with
  | none => return .placeholder
  | some rhs => inferNormalized (Value.normalize rhs) environment

def edgeInto? (lines : List Text) (index : Nat) : Except Panic (Option Edge) :=
  if index = 0 ∨ lines.length ≤ index then return none
  else do
    let current ← entryAt lines index
    let previous ← entryAt lines (index - 1)
    return some (.between index previous current)

def assign (s : Sweep) (line : Text) : Except Panic Sweep :=
  if isAssignment line then do
    let assignment ← assignment line
    let value ← valueOf s.environment assignment.rhs
    return s.bind assignment.target value
  else return s

def define (s : Sweep) (lineNumber : Nat) (line : Text) : Except Panic Sweep :=
  if isFunctionDefinition line then do
    let header ← header line
    return { s with stack := s.stack.push (.ofHeader header lineNumber) }
  else return s

/-- The state that the step of a line shows; the line of the first step has no edge. -/
def enter (lines : List Text) (number index : Nat) (s : Sweep) (line : Text) :
    Except Panic Sweep := do
  let defined ← define s (index + 1) line
  let edge ← if number = 1 then pure none else edgeInto? lines index
  assign (defined.addEdge edge) line

def run (lines : List Text) (clock : Nat → Nat) (number : Nat) (s : Sweep) :
    List (Nat × Text) → Except Panic (Trace × Sweep)
  | [] => return ([], s)
  | (index, line) :: rest => do
    let shown ← enter lines number index s line
    let (steps, last) ← run lines clock (number + 1) (shown.leave line) rest
    return (shown.step clock number (index + 1) line :: steps, last)

def synthesize (run : Run) (code : Text) (language : Language) : Except Panic Trace := do
  let lines := Trace.readLines code
  let (steps, last) ← Checked.run lines run.clock 1 (.start run.candidates)
    (Trace.significantLines lines)
  if steps.isEmpty then return []
  else
    return steps ++
      [last.completionStep run.clock (steps.length + 1) language.cannedOutput]

end Walkthrough.Checked
