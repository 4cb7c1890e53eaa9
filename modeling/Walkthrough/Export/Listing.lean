import Walkthrough.Trace.Step

/-!
# Listings

A trace as plain text for terminals: a header for each step, and under it, where there
are any, the variables, the names on the call stack and the lines of the output.
-/

namespace Walkthrough

namespace Step

def place (step : Step) : Text :=
  match step.highlight with
  | some line => "line ".toList ++ Text.ofNat line
  | none => "end".toList

def header (step : Step) : Text :=
  ['#'] ++ Text.ofNat step.number ++ " [".toList ++ step.place ++ "] ".toList ++ step.description

def variableLines (step : Step) : List Text :=
  if step.environment.isEmpty then []
  else
    let bindings := step.environment.entries.map fun (name, value) =>
      name ++ " = ".toList ++ value.display
    ["    vars:  ".toList ++ Text.join ", ".toList bindings]

def stackLines (step : Step) : List Text :=
  if step.frames.isEmpty then []
  else ["    stack: ".toList ++ Text.join " > ".toList (step.frames.map (·.functionName))]

def outputLines (step : Step) : List Text :=
  match step.output with
  | some output => (Text.lines output).map ("    | ".toList ++ ·)
  | none => []

def listing (step : Step) : List Text :=
  step.header :: step.variableLines ++ step.stackLines ++ step.outputLines

end Step

def Trace.listing (steps : Trace) : Text := Text.join ['\n'] (steps.flatMap Step.listing)

end Walkthrough
