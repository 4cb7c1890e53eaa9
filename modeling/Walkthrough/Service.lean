import Walkthrough.Service.Response
import Walkthrough.Trace.Checked

/-!
# The service

The operations behind the wire and the command line.  Executing a snippet gives the
fixed output of its language; visualizing it gives its trace.  Both are guarded: a
computation that is broken off makes a failure, with the message of the panic.
-/

namespace Walkthrough

/-- A computation, or the message of what it was broken off with. -/
def guarded {α : Type} (computation : Except Panic α) : Except Text α :=
  computation.mapError Panic.message

namespace Snippet

/-- The output of a snippet, which depends on its language only. -/
def output (s : Snippet) : Text := s.language.cannedOutput

def execute (run : Run) (s : Snippet) : Response :=
  match guarded (pure s.output) with
  | .ok output => .executed output run.elapsed
  | .error message => .failed message run.elapsed

/-- The steps of a snippet, without the checks that are made on the way. -/
def trace (run : Run) (s : Snippet) : Trace := Trace.synthesize run s.code s.language

def visualize (run : Run) (s : Snippet) : Response :=
  match guarded (Checked.synthesize run s.code s.language) with
  | .ok steps => .visualized steps (Trace.output steps) run.elapsed
  | .error message => .failed message run.elapsed

/-- One response for each snippet, in their order.  A trace takes the candidates for
addresses that the traces before it leave. -/
def visualizeAll (run : Run) : List Snippet → List Response
  | [] => []
  | s :: rest =>
    let candidates := Trace.unusedCandidates run s.code
    s.visualize run :: visualizeAll { run with candidates } rest

end Snippet

namespace Request

def execute (run : Run) (r : Request) : Response :=
  match r.validate with
  | .ok snippet => snippet.execute run
  | .error errors => .rejected errors

def visualize (run : Run) (r : Request) : Response :=
  match r.validate with
  | .ok snippet => snippet.visualize run
  | .error errors => .rejected errors

end Request
end Walkthrough
