import Walkthrough.Trace.CallStack
import Walkthrough.Trace.DataStructure
import Walkthrough.Trace.Edge
import Walkthrough.Trace.Memory
import Walkthrough.Value.Inference

/-!
# Steps

A trace is a list of steps.  Each step shows the whole state that the walkthrough has
reached with it; the last one shows the output instead of a line.
-/

namespace Walkthrough

structure Step where
  /-- Steps count from one. -/
  number : Nat
  description : Text
  environment : Environment
  /-- The line, counted from one, that the step is about. -/
  highlight : Option Nat
  output : Option Text
  frames : CallStack
  memory : List MemoryObject
  edges : List Edge
  structures : List DataStructure
  timestamp : Nat

abbrev Trace := List Step

/-- The description of a trace's last step, and the output of a trace without any. -/
def Trace.completion : Text := "Execution completed".toList

/-- The outputs of the steps that have one, a line feed between each two. -/
def Trace.output (steps : Trace) : Text :=
  match steps.filterMap Step.output with
  | [] => completion
  | outputs => Text.join ['\n'] outputs

end Walkthrough
