import Walkthrough.Dictionary
import Walkthrough.Line.Header

/-!
# The call stack

A line that defines a function pushes a frame and a line that returns pops one; no call
is followed.  Frames are listed from the bottom up.
-/

namespace Walkthrough

structure Frame where
  functionName : Text
  parameters : Roster Value
  localVariables : Dictionary Value
  returnValue : Option Value
  /-- The line, counted from one, that pushed the frame. -/
  lineNumber : Nat

def Frame.ofHeader (header : Line.Header) (lineNumber : Nat) : Frame :=
  ⟨header.name, header.parameters, .empty, none, lineNumber⟩

abbrev CallStack := List Frame

namespace CallStack

def push (stack : CallStack) (frame : Frame) : CallStack := stack ++ [frame]

def top? (stack : CallStack) : Option Frame := stack.getLast?

/-- The stack without its top; the empty stack stays empty. -/
def pop (stack : CallStack) : CallStack := stack.dropLast

end CallStack
end Walkthrough
