import Walkthrough.Language
import Walkthrough.Line.Assignment
import Walkthrough.Trace.Run
import Walkthrough.Trace.Step

/-!
# Synthesizing a trace

One sweep over the significant lines of a snippet.  Each of them has a step, which shows
what the lines up to it have gathered; after them comes the step of completion.  A
snippet without a significant line has no steps.  Only the first fifteen lines are read.
-/

namespace Walkthrough

/-- What the lines up to some point of a sweep have gathered, and the candidates for
addresses that are left. -/
structure Sweep where
  environment : Environment
  stack : CallStack
  memory : List MemoryObject
  edges : List Edge
  structures : List DataStructure
  candidates : List Address

namespace Sweep

def start (candidates : List Address) : Sweep := ⟨.empty, [], [], [], [], candidates⟩

/-- The value of an assignment's right-hand side, which may be missing. -/
def valueOf (environment : Environment) (rhs : Option Text) : Value :=
  match rhs with
  | none => .placeholder
  | some rhs => .infer rhs environment

/-- Binds a variable, and records a memory object and any structure of the value. -/
def bind (s : Sweep) (name : Text) (value : Value) : Sweep :=
  let (address, candidates) := Address.draw (s.memory.map (·.address)) s.candidates
  { s with
    environment := s.environment.insert name value
    memory := s.memory ++ [.ofVariable address name value]
    structures := s.structures ++ (DataStructure.detect? value).toList
    candidates }

def assign (s : Sweep) (line : Text) : Sweep :=
  if Line.isAssignment line then
    let assignment := Line.Assignment.read line
    s.bind assignment.target (valueOf s.environment assignment.rhs)
  else s

def define (s : Sweep) (lineNumber : Nat) (line : Text) : Sweep :=
  if Line.isFunctionDefinition line then
    { s with stack := s.stack.push (.ofHeader (.read line) lineNumber) }
  else s

def addEdge (s : Sweep) (edge : Option Edge) : Sweep := { s with edges := s.edges ++ edge.toList }

/-- The state that the step of a line shows. -/
def enter (s : Sweep) (edge : Option Edge) (lineNumber : Nat) (line : Text) : Sweep :=
  ((s.define lineNumber line).addEdge edge).assign line

/-- A line that returns still shows its frame, which goes only after its step. -/
def leave (s : Sweep) (line : Text) : Sweep :=
  if Line.isReturn line then { s with stack := s.stack.pop } else s

def step (s : Sweep) (clock : Nat → Nat) (number lineNumber : Nat) (line : Text) : Step :=
  ⟨number, Line.describe line, s.environment, some lineNumber, none, s.stack, s.memory, s.edges,
    s.structures, clock number⟩

def completionStep (s : Sweep) (clock : Nat → Nat) (number : Nat) (output : Text) : Step :=
  ⟨number, Trace.completion, s.environment, none, some output, s.stack, s.memory, s.edges,
    s.structures, clock number⟩

/-- The edge into a line; the line of the first step has none. -/
def edgeInto (lines : List Text) (number index : Nat) : Option Edge :=
  if number = 1 then none else Edge.into? lines index

/-- The steps of the significant lines, the first of which has the given number, and the
state after them. -/
def run (lines : List Text) (clock : Nat → Nat) (number : Nat) (s : Sweep) :
    List (Nat × Text) → Trace × Sweep
  | [] => ([], s)
  | (index, line) :: rest =>
    let shown := s.enter (edgeInto lines number index) (index + 1) line
    let (steps, last) := run lines clock (number + 1) (shown.leave line) rest
    (shown.step clock number (index + 1) line :: steps, last)

end Sweep

namespace Trace

/-- The number of lines of a snippet that are read. -/
def lineLimit : Nat := 15

def readLines (code : Text) : List Text := (code.splitOn '\n').take lineLimit

/-- The significant lines, trimmed, with their positions counted from zero. -/
def significantLines (lines : List Text) : List (Nat × Text) :=
  (lines.zipIdx.filter fun (line, _) => Line.isSignificant line).map fun (line, index) =>
    (index, Text.trim line)

def sweep (run : Run) (code : Text) : Trace × Sweep :=
  let lines := readLines code
  (Sweep.start run.candidates).run lines run.clock 1 (significantLines lines)

def synthesize (run : Run) (code : Text) (language : Language) : Trace :=
  match sweep run code with
  | ([], _) => []
  | (steps, last) =>
    steps ++ [last.completionStep run.clock (steps.length + 1) language.cannedOutput]

/-- The candidates that the trace of a snippet leaves for the next one. -/
def unusedCandidates (run : Run) (code : Text) : List Address := (sweep run code).2.candidates

end Trace
end Walkthrough
