import Walkthrough.Proofs.Growth

/-!
# Which lines assign

A line assigns if it has an equals sign with no other one beside it and, besides, no two
equals signs stand side by side anywhere in the line (`Line.isAssignment_iff`).  So a line
that assigns the result of a comparison does not count.  Variables, memory objects and
structures are the records of a state: an assigning line adds to them and no other line
changes them, from one step to the next (`synthesize_assigns`).
-/

namespace Walkthrough

/-! ## Equals signs -/

/-- There is an equals sign in the line with no other one directly before or after it. -/
def Line.HasLoneEquals (line : Text) : Prop :=
  ∃ before after, line = before ++ '=' :: after ∧
    before.getLast? ≠ some '=' ∧ after.head? ≠ some '='

theorem Line.isAssignment_iff {line : Text} :
    Line.isAssignment line = true ↔ HasLoneEquals line ∧ ¬ "==".toList <:+: line := by
  have two : "==".toList = ['=', '='] := rfl
  simp only [isAssignment, has, Bool.and_eq_true, Bool.not_eq_true', Bool.eq_false_iff, ne_eq,
    Text.occursIn_iff, List.contains_eq_mem, decide_eq_true_eq, and_congr_left_iff, two]
  intro no_two
  constructor
  · intro mem
    obtain ⟨before, after, split⟩ := List.append_of_mem mem
    refine ⟨before, after, split, ?_, ?_⟩
    · intro last
      obtain ⟨init, rfl⟩ := List.getLast?_eq_some_iff.1 last
      apply no_two
      exact ⟨init, after, by rw [split, List.append_assoc, List.append_assoc]; rfl⟩
    · intro first
      obtain ⟨tail, rfl⟩ := List.head?_eq_some_iff.1 first
      apply no_two
      exact ⟨before, tail, by rw [split, List.append_assoc]; rfl⟩
  · rintro ⟨before, after, rfl, -, -⟩
    exact List.mem_append_right before List.mem_cons_self

/-! ## Records -/

/-- What assignments change. -/
structure Records where
  environment : Environment
  memory : List MemoryObject
  structures : List DataStructure

namespace Records

def empty : Records := ⟨.empty, [], []⟩

/-- What a line that assigns makes of the records before it. -/
structure Assigned (line : Text) (before after : Records) : Prop where
  environment : after.environment = before.environment.insert (Line.Assignment.read line).target
    (Sweep.valueOf before.environment (Line.Assignment.read line).rhs)
  memory : ∃ object, after.memory = before.memory ++ [object] ∧
    object.references = [(Line.Assignment.read line).target] ∧
    object.value = Sweep.valueOf before.environment (Line.Assignment.read line).rhs
  structures : after.structures = before.structures ++ (DataStructure.detect?
    (Sweep.valueOf before.environment (Line.Assignment.read line).rhs)).toList

end Records

def Step.records (step : Step) : Records := ⟨step.environment, step.memory, step.structures⟩

/-- The records of the step before a position; before the first step there are none. -/
def Trace.recordsBefore (steps : Trace) : Nat → Records
  | 0 => .empty
  | k + 1 => (steps[k]?.map Step.records).getD .empty

namespace Sweep

def records (s : Sweep) : Records := ⟨s.environment, s.memory, s.structures⟩

section
variable (s : Sweep) (edge : Option Edge) (lineNumber : Nat) {line : Text}

theorem records_leave : (s.leave line).records = s.records := by
  simp only [records, leave_environment, leave_memory, leave_structures]

theorem assigned_enter (h : Line.isAssignment line = true) :
    s.records.Assigned line (s.enter edge lineNumber line).records where
  environment := by
    simp only [records, enter_environment, h, if_true]
  memory := by
    simp only [records, enter_memory, h, if_true]
    exact ⟨_, rfl, rfl, rfl⟩
  structures := by
    simp only [records, enter_structures, h, if_true]

theorem records_enter (h : Line.isAssignment line = false) :
    (s.enter edge lineNumber line).records = s.records := by
  simp only [records, enter_environment, enter_memory, enter_structures, h, Bool.false_eq_true,
    if_false]

end
end Sweep

namespace Trace
variable {run : Run} {code : Text} {language : Language} {k : Nat} {step : Step}

theorem records_stateAt (h : (synthesize run code language)[k]? = some step) :
    step.records = (stateAt run code k).records := by
  have pictures := pictures_stateAt h
  rw [Step.records, pictures.environment, pictures.memory, pictures.structures]
  rfl

/-- What stands before a line is what the step before it shows. -/
theorem recordsBefore_synthesize (h : (synthesize run code language)[k]? = some step) :
    (synthesize run code language).recordsBefore k = (stateBefore run code k).records := by
  cases k with
  | zero => rfl
  | succ k =>
    have inside : k < (visited code).length := le_length_of_step h
    have line := List.getElem?_eq_getElem inside
    rw [recordsBefore, getElem?_synthesize_line line, stateBefore_succ line, Sweep.records_leave]
    rfl

/-- **Which lines assign.**  The step of a line adds a memory object to those of the step
before it exactly if the line has a lone equals sign and no two side by side.  Then it binds
the target to the value of the right-hand side and records any structure of the value;
otherwise variables, memory objects and structures stay as they were. -/
theorem synthesize_assigns {line : Text} (h : (synthesize run code language)[k]? = some step)
    (about : step.line? code = some line) :
    let before := (synthesize run code language).recordsBefore k
    ((∃ object, step.memory = before.memory ++ [object]) ↔
        Line.HasLoneEquals line ∧ ¬ "==".toList <:+: line) ∧
      (Line.HasLoneEquals line ∧ ¬ "==".toList <:+: line → before.Assigned line step.records) ∧
      (¬ (Line.HasLoneEquals line ∧ ¬ "==".toList <:+: line) → step.records = before) := by
  rcases step_cases h with ⟨item, found, step_eq⟩ | ⟨-, -, rfl⟩
  · have line_eq : line = item.2 := by
      rw [step_eq, line?_step (List.mem_of_getElem? found)] at about
      exact (Option.some.inj about).symm
    subst line_eq
    rw [recordsBefore_synthesize h, ← Line.isAssignment_iff]
    have shown := records_stateAt h
    rw [stateAt_eq_enter found] at shown
    have assigned (assigns : Line.isAssignment item.2 = true) :
        (stateBefore run code k).records.Assigned item.2 step.records := by
      rw [shown]
      exact Sweep.assigned_enter _ _ _ assigns
    have unchanged (other : ¬ Line.isAssignment item.2 = true) :
        step.records = (stateBefore run code k).records := by
      rw [shown]
      exact Sweep.records_enter _ _ _ (eq_false_of_ne_true other)
    refine ⟨⟨?_, ?_⟩, assigned, unchanged⟩
    · rintro ⟨object, added⟩
      by_contra other
      have same : step.memory = _ := congrArg Records.memory (unchanged other)
      rw [same] at added
      simp at added
    · intro assigns
      obtain ⟨object, added, -, -⟩ := (assigned assigns).memory
      exact ⟨object, added⟩
  · -- the step of completion is about no line
    cases about

/-- A comparison after an assignment changes nothing. -/
theorem synthesize_assigns_compared :
    let code := "x = [1]\nif x == [1]:".toList
    ∃ first second, (synthesize ⟨[], fun _ => 0, 0⟩ code .python)[0]? = some first ∧
      (synthesize ⟨[], fun _ => 0, 0⟩ code .python)[1]? = some second ∧
      (∃ object, first.memory = [object] ∧ object.references = ["x".toList]) ∧
      second.records = first.records := by
  intro code
  have first := List.getElem?_eq_getElem (l := synthesize ⟨[], fun _ => 0, 0⟩ code .python)
    (i := 0) (by decide)
  have second := List.getElem?_eq_getElem (l := synthesize ⟨[], fun _ => 0, 0⟩ code .python)
    (i := 1) (by decide)
  have assigns : Line.HasLoneEquals "x = [1]".toList ∧ ¬ "==".toList <:+: "x = [1]".toList :=
    Line.isAssignment_iff.1 (by decide)
  have compares : ¬ (Line.HasLoneEquals "if x == [1]:".toList ∧
      ¬ "==".toList <:+: "if x == [1]:".toList) :=
    mt Line.isAssignment_iff.2 (by decide)
  obtain ⟨-, assigned, -⟩ :=
    synthesize_assigns first (show _ = some "x = [1]".toList by decide)
  obtain ⟨-, -, unchanged⟩ :=
    synthesize_assigns second (show _ = some "if x == [1]:".toList by decide)
  obtain ⟨object, added, references, -⟩ := (assigned assigns).memory
  exact ⟨_, _, first, second, ⟨object, added, references⟩, unchanged compares⟩

/-- A line that assigns the result of a comparison has a lone equals sign, and yet its step
shows nothing. -/
theorem synthesize_assigns_comparison :
    let code := "ok = a == b".toList
    Line.HasLoneEquals code ∧
      ∃ step, (synthesize ⟨[], fun _ => 0, 0⟩ code .python)[0]? = some step ∧
        step.line? code = some code ∧ step.records = .empty := by
  intro code
  refine ⟨⟨"ok ".toList, " a == b".toList, rfl, by decide, by decide⟩, ?_⟩
  exact ⟨_, rfl, by decide, rfl⟩

end Trace
end Walkthrough
