import Walkthrough.Proofs.Edges

/-!
# From one step to the next

What a step shows more than the step before it.  Memory, edges and structures only grow,
and no variable is lost (`Step.Grows`).  The step of a line adds exactly what the line
says (`Step.Adds`); the step of completion adds nothing, and at most the top frame goes
(`Step.Completes`).  `isChain_synthesize` finds one or the other between any two
consecutive steps.
-/

namespace Walkthrough

namespace Step

/-- Nothing that a step shows is gone or changed in the next. -/
structure Grows (before after : Step) : Prop where
  memory : before.memory <+: after.memory
  edges : before.edges <+: after.edges
  structures : before.structures <+: after.structures
  names : ∀ name ∈ before.environment.names, name ∈ after.environment.names

/-- What the step of a line shows more than the step before it. -/
structure Adds (line : Text) (before after : Step) : Prop where
  edge : ∃ edge, after.edges = before.edges ++ [edge]
  /-- An assignment adds one object, and one structure exactly if the object holds a list. -/
  assigned : Line.isAssignment line = true → ∃ object structures,
    after.memory = before.memory ++ [object] ∧
    after.structures = before.structures ++ structures ∧
    structures.length = (if object.value.items?.isSome then 1 else 0) ∧
    ∀ name, after.environment.get? name =
      if name = (Line.Assignment.read line).target then some object.value
      else before.environment.get? name
  unassigned : Line.isAssignment line = false →
    after.memory = before.memory ∧ after.structures = before.structures ∧
      after.environment = before.environment

/-- What the step of completion shows after the step of a line. -/
structure Completes (line : Text) (before after : Step) : Prop where
  environment : after.environment = before.environment
  memory : after.memory = before.memory
  edges : after.edges = before.edges
  structures : after.structures = before.structures
  /-- With no frames there is no top to take away. -/
  returned : "return".toList <:+: line → after.frames = before.frames.dropLast
  kept : ¬ "return".toList <:+: line → after.frames = before.frames

/-- The line that a step of a snippet is about, trimmed. -/
def line? (code : Text) (step : Step) : Option Text :=
  step.highlight.bind fun n => (code.splitOn '\n')[n - 1]?.map Text.trim

/-- How a step of a snippet's trace follows another.  Only the step of completion has no
highlight. -/
structure Follows (code : Text) (before after : Step) : Prop where
  grows : before.Grows after
  line_or_completion : (∃ line, after.line? code = some line ∧ before.Adds line after) ∨
    (after.highlight = none ∧ ∃ line, before.line? code = some line ∧ before.Completes line after)

theorem Adds.grows {line : Text} {before after : Step} (h : before.Adds line after) :
    before.Grows after := by
  obtain ⟨edge, edges_eq⟩ := h.edge
  by_cases assigns : Line.isAssignment line = true
  · obtain ⟨object, structures, memory_eq, structures_eq, -, values⟩ := h.assigned assigns
    refine ⟨⟨_, memory_eq.symm⟩, ⟨_, edges_eq.symm⟩, ⟨_, structures_eq.symm⟩, ?_⟩
    intro name mem
    rw [← Dictionary.isSome_get?_iff] at mem ⊢
    rw [values]
    split
    · rfl
    · exact mem
  · obtain ⟨memory_eq, structures_eq, environment_eq⟩ :=
      h.unassigned (eq_false_of_ne_true assigns)
    exact ⟨memory_eq ▸ List.prefix_rfl, ⟨_, edges_eq.symm⟩, structures_eq ▸ List.prefix_rfl,
      environment_eq ▸ fun name mem => mem⟩

theorem Completes.grows {line : Text} {before after : Step} (h : before.Completes line after) :
    before.Grows after where
  memory := h.memory ▸ List.prefix_rfl
  edges := h.edges ▸ List.prefix_rfl
  structures := h.structures ▸ List.prefix_rfl
  names := h.environment ▸ fun _ mem => mem

end Step

theorem DataStructure.length_toList_detect? (value : Value) :
    (detect? value).toList.length = if value.items?.isSome then 1 else 0 := by
  rw [detect?]
  cases value.items? <;> rfl

namespace Sweep

section
variable (s : Sweep) (clock : Nat → Nat) (number number' lineNumber lineNumber' : Nat)
  (line next : Text)

/-- From one line to the next: what the first one leaves, the second one adds to. -/
theorem step_adds (edge : Edge) :
    (s.step clock number lineNumber line).Adds next
      (((s.leave line).enter (some edge) lineNumber' next).step clock number' lineNumber'
        next) := by
  constructor
  case edge =>
    refine ⟨edge, ?_⟩
    simp only [step, enter_edges, leave_edges, Option.toList_some]
  case assigned =>
    intro assigns
    simp only [step, enter_memory, enter_structures, enter_environment, assigns, if_true,
      leave_memory, leave_structures, leave_environment, Dictionary.get?_insert]
    exact ⟨_, _, rfl, rfl, DataStructure.length_toList_detect? _, fun _ => rfl⟩
  case unassigned =>
    intro other
    simp only [step, enter_memory, enter_structures, enter_environment, other, Bool.false_eq_true,
      if_false, leave_memory, leave_structures, leave_environment, and_self]

/-- Leaving the last line changes nothing but the stack. -/
theorem step_completes (output : Text) :
    (s.step clock number lineNumber line).Completes line
      ((s.leave line).completionStep clock number' output) := by
  constructor
  case environment => exact s.leave_environment line
  case memory => exact s.leave_memory line
  case edges => exact s.leave_edges line
  case structures => exact s.leave_structures line
  case returned =>
    intro returns
    exact (s.leave_stack line).trans (if_pos (Text.occursIn_iff.2 returns))
  case kept =>
    intro stays
    exact (s.leave_stack line).trans (if_neg (mt Text.occursIn_iff.1 stays))

end

end Sweep

namespace Trace

theorem line?_step {code : Text} {item : Nat × Text} (h : item ∈ visited code) (s : Sweep)
    (clock : Nat → Nat) (number : Nat) :
    (s.step clock number (item.1 + 1) item.2).line? code = some item.2 := by
  obtain ⟨-, raw, physical, trimmed, -⟩ := mem_visited.1 h
  simp only [Step.line?, Sweep.step, Option.bind_some, Nat.add_sub_cancel, physical,
    Option.map_some, trimmed]

/-- **From one step to the next.**  Of any two consecutive steps the second shows
everything that the first one does.  If it is the step of a line, it adds one edge, and
for an assignment one object, at most one structure and one variable's value; if it is
the step of completion, it shows the same and, after a return, one frame less. -/
theorem isChain_synthesize (run : Run) (code : Text) (language : Language) :
    (synthesize run code language).IsChain (Step.Follows code) := by
  rw [List.isChain_iff_getElem]
  intro k hk
  have first := List.getElem?_eq_getElem (Nat.lt_of_succ_lt hk)
  have second := List.getElem?_eq_getElem hk
  -- the first of two steps is the step of a line, whatever the second one is
  have inside : k < (visited code).length := le_length_of_step second
  have found := List.getElem?_eq_getElem inside
  have before_eq := Option.some.inj (first.symm.trans (getElem?_synthesize_line found))
  rcases step_cases second with ⟨next, hnext, after_eq⟩ | ⟨last, -, after_eq⟩
  · obtain ⟨edge, into, -⟩ := edgeInto_visited hnext
    have adds : (synthesize run code language)[k].Adds next.2
        (synthesize run code language)[k + 1] := by
      rw [before_eq, after_eq, stateAt_succ found hnext, into]
      exact Sweep.step_adds ..
    refine ⟨adds.grows, .inl ⟨next.2, ?_, adds⟩⟩
    rw [after_eq]
    exact line?_step (List.mem_of_getElem? hnext) _ _ _
  · have ended : (visited code)[k + 1]? = none :=
      List.getElem?_eq_none_iff.2 (Nat.le_of_eq last.symm)
    have completes : (synthesize run code language)[k].Completes (visited code)[k].2
        (synthesize run code language)[k + 1] := by
      rw [before_eq, after_eq, stateAt_succ_of_none found ended]
      exact Sweep.step_completes ..
    refine ⟨completes.grows, .inr ⟨?_, _, ?_, completes⟩⟩
    · rw [after_eq]
      rfl
    · rw [before_eq]
      exact line?_step (List.getElem_mem inside) _ _ _

end Trace
end Walkthrough
