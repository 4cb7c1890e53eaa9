import Walkthrough.Trace.Memory

/-!
# Runs

What differs between two runs over one snippet.  Everything else in a trace depends on
the snippet alone.
-/

namespace Walkthrough

structure Run where
  /-- The addresses that memory objects are given, as far as they are not in use. -/
  candidates : List Address
  /-- The time at which the step of a number is taken, in milliseconds. -/
  clock : Nat → Nat
  /-- The time that the run takes, in milliseconds. -/
  elapsed : Nat

end Walkthrough
