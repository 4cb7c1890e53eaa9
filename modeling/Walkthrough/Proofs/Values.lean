import Walkthrough.Proofs.Dictionary
import Walkthrough.Proofs.Frames
import Walkthrough.Proofs.Rosters

/-!
# The values of a state

A value comes into a state by inference alone, which may take it from the variables of the
state itself.  So what inference keeps holds of all values that a step shows:
`allValues_stateAt`.  Frames hold placeholders only: `isFresh_of_mem_frames`.
-/

namespace Walkthrough

/-- All values of a state but those in its frames; the structures are detected in such
values. -/
structure Sweep.AllValues (P : Value → Prop) (s : Sweep) : Prop where
  environment : ∀ entry ∈ s.environment.entries, P entry.2
  memory : ∀ object ∈ s.memory, P object.value
  structures : ∀ detected ∈ s.structures, ∃ value, P value ∧
    DataStructure.detect? value = some detected

namespace Sweep

variable {P : Value → Prop} {s : Sweep}

theorem AllValues.enter (h : s.AllValues P) (edge : Option Edge) (lineNumber : Nat) {line : Text}
    (new : P (valueOf s.environment (Line.Assignment.read line).rhs)) :
    (s.enter edge lineNumber line).AllValues P := by
  constructor
  case environment =>
    rw [enter_environment]
    split
    · intro entry mem
      rcases Dictionary.mem_entries_insert mem with rfl | old
      · exact new
      · exact h.environment entry old
    · exact h.environment
  case memory =>
    rw [enter_memory]
    split
    · exact List.forall_mem_append.2 ⟨h.memory, List.forall_mem_singleton.2 new⟩
    · exact h.memory
  case structures =>
    rw [enter_structures]
    split
    · exact List.forall_mem_append.2 ⟨h.structures, fun detected mem =>
        ⟨_, new, Option.mem_toList.1 mem⟩⟩
    · exact h.structures

theorem AllValues.leave (h : s.AllValues P) (line : Text) : (s.leave line).AllValues P := by
  constructor
  case environment =>
    rw [leave_environment]
    exact h.environment
  case memory =>
    rw [leave_memory]
    exact h.memory
  case structures =>
    rw [leave_structures]
    exact h.structures

end Sweep

/-- What inference keeps on the lines of a snippet holds of all values of a step. -/
theorem Trace.allValues_stateAt {P : Value → Prop} {code : Text}
    (inherited : ∀ environment, ∀ item ∈ visited code,
      (∀ entry ∈ Dictionary.entries environment, P entry.2) →
        P (Sweep.valueOf environment (Line.Assignment.read item.2).rhs))
    (run : Run) (k : Nat) : (stateAt run code k).AllValues P := by
  refine stateAt_related_visited run run (fun s _ => s.AllValues P) ?_ ?_ ?_ k
  · exact ⟨List.forall_mem_nil _, List.forall_mem_nil _, List.forall_mem_nil _⟩
  · intro s _ edge lineNumber item visits h
    exact h.enter edge lineNumber (inherited s.environment item visits h.environment)
  · intro s _ item _ h
    exact h.leave item.2

/-! ## Frames -/

/-- A frame whose parameters have no values yet. -/
structure Frame.IsFresh (frame : Frame) : Prop where
  parameters : ∀ entry ∈ frame.parameters.entries, entry.2 = .placeholder
  localVariables : frame.localVariables.entries = []
  returnValue : frame.returnValue = none

theorem Frame.isFresh_of_opened? {item : Nat × Text} {frame : Frame}
    (h : opened? item = some frame) : frame.IsFresh := by
  unfold opened? at h
  split at h
  · cases h
    refine ⟨fun entry mem => ?_, rfl, rfl⟩
    obtain ⟨name, -, rfl⟩ := List.mem_map.1 (Roster.mem_entries_ofList mem)
    rfl
  · cases h

/-- The frames of a step hold placeholders only, and their lines are among those read. -/
theorem Trace.isFresh_of_mem_frames {run : Run} {code : Text} {language : Language} {k : Nat}
    {step : Step} (h : (synthesize run code language)[k]? = some step) {frame : Frame}
    (hf : frame ∈ step.frames) : frame.IsFresh ∧ frame.lineNumber ≤ 15 := by
  obtain ⟨item, visits, opens⟩ := mem_frames h hf
  refine ⟨Frame.isFresh_of_opened? opens, ?_⟩
  have early := (mem_visited.1 visits).1
  unfold Frame.opened? at opens
  split at opens
  · cases opens
    exact early
  · cases opens

end Walkthrough
