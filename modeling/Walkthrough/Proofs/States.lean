import Walkthrough.Trace.Synthesis

/-!
# The states behind a trace

A sweep is in one state before each significant line, `stateBefore`, and shows another
one in the line's step, `stateAt`; the step of completion shows the last state.

* `getElem?_synthesize_line` and `getElem?_synthesize_end` say which step a trace has
  at a position, and `step_cases` that it has no others;
* `stateBefore_succ` and `stateAt_eq_enter` are the two halves of a line;
* `stateAt_invariant` is the induction over them: what holds at the start and is kept
  by both halves holds in every state that a step shows; `stateAt_related_visited` is the
  same for two runs, and tells which lines are met.
-/

namespace Walkthrough

namespace Sweep

/-- The state that the step of a line shows. -/
def shown (lines : List Text) (number : Nat) (s : Sweep) (item : Nat × Text) : Sweep :=
  s.enter (edgeInto lines number item.1) (item.1 + 1) item.2

/-! ## What a line does to a state -/

section
variable (s : Sweep) (edge : Option Edge) (lineNumber : Nat) (line : Text)

theorem enter_environment :
    (s.enter edge lineNumber line).environment =
      if Line.isAssignment line then
        s.environment.insert (Line.Assignment.read line).target
          (valueOf s.environment (Line.Assignment.read line).rhs)
      else s.environment := by
  unfold enter assign define addEdge
  split <;> split <;> rfl

theorem enter_stack :
    (s.enter edge lineNumber line).stack =
      if Line.isFunctionDefinition line then s.stack.push (.ofHeader (.read line) lineNumber)
      else s.stack := by
  unfold enter assign define addEdge
  split <;> split <;> rfl

theorem enter_memory :
    (s.enter edge lineNumber line).memory =
      if Line.isAssignment line then
        s.memory ++ [.ofVariable (Address.draw (s.memory.map (·.address)) s.candidates).1
          (Line.Assignment.read line).target
          (valueOf s.environment (Line.Assignment.read line).rhs)]
      else s.memory := by
  unfold enter assign define addEdge
  split <;> split <;> rfl

theorem enter_edges : (s.enter edge lineNumber line).edges = s.edges ++ edge.toList := by
  unfold enter assign define addEdge
  split <;> split <;> rfl

theorem enter_structures :
    (s.enter edge lineNumber line).structures =
      if Line.isAssignment line then
        s.structures ++ (DataStructure.detect?
          (valueOf s.environment (Line.Assignment.read line).rhs)).toList
      else s.structures := by
  unfold enter assign define addEdge
  split <;> split <;> rfl

theorem enter_candidates :
    (s.enter edge lineNumber line).candidates =
      if Line.isAssignment line then
        (Address.draw (s.memory.map (·.address)) s.candidates).2
      else s.candidates := by
  unfold enter assign define addEdge
  split <;> split <;> rfl

theorem leave_stack :
    (s.leave line).stack = if Line.isReturn line then s.stack.pop else s.stack := by
  unfold leave
  split <;> rfl

@[simp] theorem leave_environment : (s.leave line).environment = s.environment := by
  unfold leave
  split <;> rfl

@[simp] theorem leave_memory : (s.leave line).memory = s.memory := by
  unfold leave
  split <;> rfl

@[simp] theorem leave_edges : (s.leave line).edges = s.edges := by
  unfold leave
  split <;> rfl

@[simp] theorem leave_structures : (s.leave line).structures = s.structures := by
  unfold leave
  split <;> rfl

@[simp] theorem leave_candidates : (s.leave line).candidates = s.candidates := by
  unfold leave
  split <;> rfl

end

/-! ## The states of a run -/

/-- The state after a list of lines, the first of which has the step of the given number. -/
def after (lines : List Text) (number : Nat) (s : Sweep) : List (Nat × Text) → Sweep
  | [] => s
  | item :: rest => after lines (number + 1) ((s.shown lines number item).leave item.2) rest

theorem after_append (lines : List Text) (number : Nat) (s : Sweep) (xs ys : List (Nat × Text)) :
    after lines number s (xs ++ ys) =
      after lines (number + xs.length) (after lines number s xs) ys := by
  induction xs generalizing number s with
  | nil => rfl
  | cons item xs ih =>
    simp only [List.cons_append, after, ih, List.length_cons]
    congr 1
    omega

theorem run_cons (lines : List Text) (clock : Nat → Nat) (number : Nat) (s : Sweep)
    (item : Nat × Text) (rest : List (Nat × Text)) :
    (run lines clock number s (item :: rest)).1 =
      (s.shown lines number item).step clock number (item.1 + 1) item.2 ::
        (run lines clock (number + 1) ((s.shown lines number item).leave item.2) rest).1 :=
  rfl

theorem run_fst_append (lines : List Text) (clock : Nat → Nat) (number : Nat) (s : Sweep)
    (xs ys : List (Nat × Text)) :
    (run lines clock number s (xs ++ ys)).1 =
      (run lines clock number s xs).1 ++
        (run lines clock (number + xs.length) (after lines number s xs) ys).1 := by
  induction xs generalizing number s with
  | nil => rfl
  | cons item xs ih =>
    have number_eq : number + (item :: xs).length = number + 1 + xs.length := by
      rw [List.length_cons]
      omega
    rw [List.cons_append, run_cons, run_cons, ih, number_eq]
    rfl

theorem run_snd (lines : List Text) (clock : Nat → Nat) (number : Nat) (s : Sweep)
    (items : List (Nat × Text)) :
    (run lines clock number s items).2 = after lines number s items := by
  induction items generalizing number s with
  | nil => rfl
  | cons item rest ih => exact ih (number + 1) _

theorem length_run (lines : List Text) (clock : Nat → Nat) (number : Nat) (s : Sweep)
    (items : List (Nat × Text)) :
    (run lines clock number s items).1.length = items.length := by
  induction items generalizing number s with
  | nil => rfl
  | cons item rest ih => exact congrArg (· + 1) (ih (number + 1) _)

/-- The step at a position shows the state that the lines before it lead to. -/
theorem getElem?_run (lines : List Text) (clock : Nat → Nat) (number : Nat) (s : Sweep)
    (items : List (Nat × Text)) (k : Nat) :
    (run lines clock number s items).1[k]? = items[k]?.map fun item =>
      ((after lines number s (items.take k)).shown lines (number + k) item).step clock
        (number + k) (item.1 + 1) item.2 := by
  induction items generalizing number s k with
  | nil => rfl
  | cons item rest ih =>
    cases k with
    | zero => rfl
    | succ k =>
      have next := ih (number + 1) ((s.shown lines number item).leave item.2) k
      have number_eq : number + 1 + k = number + (k + 1) := by omega
      rw [number_eq] at next
      exact next

end Sweep

namespace Trace

/-- The lines of a snippet that have steps. -/
abbrev visited (code : Text) : List (Nat × Text) := significantLines (readLines code)

/-- The state before the line at a position, counted from zero; after the last line it
stays the same. -/
def stateBefore (run : Run) (code : Text) (k : Nat) : Sweep :=
  .after (readLines code) 1 (.start run.candidates) ((visited code).take k)

/-- The state that the step at a position shows. -/
def stateAt (run : Run) (code : Text) (k : Nat) : Sweep :=
  match (visited code)[k]? with
  | some item => (stateBefore run code k).shown (readLines code) (k + 1) item
  | none => stateBefore run code k

section
variable {run : Run} {code : Text} {language : Language} {k : Nat}

theorem stateAt_eq_enter {item : Nat × Text} (h : (visited code)[k]? = some item) :
    stateAt run code k = (stateBefore run code k).enter
      (Sweep.edgeInto (readLines code) (k + 1) item.1) (item.1 + 1) item.2 := by
  simp only [stateAt, h, Sweep.shown]

theorem stateAt_of_none (h : (visited code)[k]? = none) :
    stateAt run code k = stateBefore run code k := by
  simp only [stateAt, h]

theorem stateBefore_succ {item : Nat × Text} (h : (visited code)[k]? = some item) :
    stateBefore run code (k + 1) = (stateAt run code k).leave item.2 := by
  obtain ⟨hk, rfl⟩ := List.getElem?_eq_some_iff.1 h
  have length_eq : ((visited code).take k).length = k := List.length_take_of_le (by omega)
  rw [stateBefore, ← List.take_append_getElem hk, Sweep.after_append, length_eq,
    Nat.add_comm 1 k]
  simp only [Sweep.after, stateAt, h, stateBefore]

theorem stateBefore_succ_of_none (h : (visited code)[k]? = none) :
    stateBefore run code (k + 1) = stateBefore run code k := by
  have ended := List.getElem?_eq_none_iff.1 h
  rw [stateBefore, stateBefore, List.take_of_length_le ended, List.take_of_length_le (by omega)]

/-- From one step to the next: the line of the first is left, the line of the second entered. -/
theorem stateAt_succ {item next : Nat × Text} (h : (visited code)[k]? = some item)
    (hnext : (visited code)[k + 1]? = some next) :
    stateAt run code (k + 1) = ((stateAt run code k).leave item.2).enter
      (Sweep.edgeInto (readLines code) (k + 2) next.1) (next.1 + 1) next.2 := by
  rw [stateAt_eq_enter hnext, stateBefore_succ h]

theorem stateAt_succ_of_none {item : Nat × Text} (h : (visited code)[k]? = some item)
    (ended : (visited code)[k + 1]? = none) :
    stateAt run code (k + 1) = (stateAt run code k).leave item.2 := by
  rw [stateAt_of_none ended, stateBefore_succ h]

/-- What holds of two runs at the start and survives both halves of every line that has a
step holds of the states that their steps show. -/
theorem stateAt_related_visited (run run' : Run) (R : Sweep → Sweep → Prop)
    (start : R (.start run.candidates) (.start run'.candidates))
    (enter : ∀ s t edge lineNumber, ∀ item ∈ visited code, R s t →
      R (s.enter edge lineNumber item.2) (t.enter edge lineNumber item.2))
    (leave : ∀ s t, ∀ item ∈ visited code, R s t → R (s.leave item.2) (t.leave item.2)) (k : Nat) :
    R (stateAt run code k) (stateAt run' code k) := by
  have shown (k : Nat) (before : R (stateBefore run code k) (stateBefore run' code k)) :
      R (stateAt run code k) (stateAt run' code k) := by
    cases h : (visited code)[k]? with
    | none =>
      rw [stateAt_of_none h, stateAt_of_none h]
      exact before
    | some item =>
      rw [stateAt_eq_enter h, stateAt_eq_enter h]
      exact enter _ _ _ _ item (List.mem_of_getElem? h) before
  apply shown
  induction k with
  | zero => exact start
  | succ k ih =>
    cases h : (visited code)[k]? with
    | none =>
      rw [stateBefore_succ_of_none h, stateBefore_succ_of_none h]
      exact ih
    | some item =>
      rw [stateBefore_succ h, stateBefore_succ h]
      exact leave _ _ item (List.mem_of_getElem? h) (shown k ih)

theorem stateAt_related (run run' : Run) (R : Sweep → Sweep → Prop)
    (start : R (.start run.candidates) (.start run'.candidates))
    (enter : ∀ s t edge lineNumber line, R s t →
      R (s.enter edge lineNumber line) (t.enter edge lineNumber line))
    (leave : ∀ s t line, R s t → R (s.leave line) (t.leave line)) (k : Nat) :
    R (stateAt run code k) (stateAt run' code k) :=
  stateAt_related_visited run run' R start (fun s t edge n item _ => enter s t edge n item.2)
    (fun s t item _ => leave s t item.2) k

/-- What holds at the start and survives both halves of every line holds in every state
that a step shows. -/
theorem stateAt_invariant (inv : Sweep → Prop) (start : inv (.start run.candidates))
    (enter : ∀ s edge lineNumber line, inv s → inv (s.enter edge lineNumber line))
    (leave : ∀ s line, inv s → inv (s.leave line)) (k : Nat) : inv (stateAt run code k) :=
  stateAt_related run run (fun s _ => inv s) start (fun s _ => enter s) (fun s _ => leave s) k

/-! ## The steps and their states -/

theorem synthesize_of_none (h : visited code = []) : synthesize run code language = [] := by
  simp only [synthesize, sweep, h, Sweep.run]

theorem synthesize_of_ne (h : visited code ≠ []) :
    synthesize run code language =
      (Sweep.run (readLines code) run.clock 1 (.start run.candidates) (visited code)).1 ++
        [(stateAt run code (visited code).length).completionStep run.clock
          ((visited code).length + 1) language.cannedOutput] := by
  have last : stateAt run code (visited code).length =
      (Sweep.run (readLines code) run.clock 1 (.start run.candidates) (visited code)).2 := by
    rw [stateAt_of_none (List.getElem?_eq_none_iff.2 (Nat.le_refl _)), Sweep.run_snd, stateBefore,
      List.take_length]
  have length_eq := Sweep.length_run (readLines code) run.clock 1 (.start run.candidates)
    (visited code)
  rw [last, synthesize, sweep]
  split
  · rename_i steps_eq
    rw [steps_eq] at length_eq
    exact absurd (List.eq_nil_of_length_eq_zero length_eq.symm) h
  · rename_i steps_eq
    rw [steps_eq] at length_eq ⊢
    exact congrArg (fun n => _ ++ [Sweep.completionStep _ _ (n + 1) _]) length_eq

theorem synthesize_eq_nil_iff : synthesize run code language = [] ↔ visited code = [] := by
  constructor
  · intro empty
    by_cases h : visited code = []
    · exact h
    · rw [synthesize_of_ne h] at empty
      simp at empty
  · exact synthesize_of_none

theorem length_synthesize (h : visited code ≠ []) :
    (synthesize run code language).length = (visited code).length + 1 := by
  rw [synthesize_of_ne h, List.length_append, Sweep.length_run, List.length_singleton]

/-- A significant line has a step, which shows its state. -/
theorem getElem?_synthesize_line {item : Nat × Text} (h : (visited code)[k]? = some item) :
    (synthesize run code language)[k]? =
      some ((stateAt run code k).step run.clock (k + 1) (item.1 + 1) item.2) := by
  obtain ⟨hk, -⟩ := List.getElem?_eq_some_iff.1 h
  have some_line : visited code ≠ [] := List.ne_nil_of_length_pos (by omega)
  rw [synthesize_of_ne some_line, List.getElem?_append_left (by rwa [Sweep.length_run]),
    Sweep.getElem?_run, h, Nat.add_comm 1 k]
  simp only [Option.map_some, stateAt, h, stateBefore]

/-- After the steps of the lines comes the step of completion. -/
theorem getElem?_synthesize_end (h : visited code ≠ []) :
    (synthesize run code language)[(visited code).length]? =
      some ((stateAt run code (visited code).length).completionStep run.clock
        ((visited code).length + 1) language.cannedOutput) := by
  rw [synthesize_of_ne h, List.getElem?_append_right (Sweep.length_run .. ▸ Nat.le_refl _),
    Sweep.length_run, Nat.sub_self]
  rfl

/-- A step is the step of a line or the step of completion. -/
theorem step_cases {step : Step} (h : (synthesize run code language)[k]? = some step) :
    (∃ item, (visited code)[k]? = some item ∧
      step = (stateAt run code k).step run.clock (k + 1) (item.1 + 1) item.2) ∨
    (k = (visited code).length ∧ visited code ≠ [] ∧
      step = (stateAt run code k).completionStep run.clock (k + 1) language.cannedOutput) := by
  have some_line : visited code ≠ [] := by
    intro none
    rw [synthesize_of_none none] at h
    cases h
  have bound := (List.getElem?_eq_some_iff.1 h).1
  rw [length_synthesize some_line] at bound
  by_cases last : k = (visited code).length
  · subst last
    rw [getElem?_synthesize_end some_line] at h
    exact .inr ⟨rfl, some_line, (Option.some.inj h).symm⟩
  · have line := List.getElem?_eq_getElem (l := visited code) (i := k) (by omega)
    rw [getElem?_synthesize_line line] at h
    exact .inl ⟨_, line, (Option.some.inj h).symm⟩

theorem le_length_of_step {step : Step} (h : (synthesize run code language)[k]? = some step) :
    k ≤ (visited code).length := by
  rcases step_cases h with ⟨item, found, -⟩ | ⟨last, -, -⟩
  · exact Nat.le_of_lt (List.getElem?_eq_some_iff.1 found).1
  · exact Nat.le_of_eq last

/-- Everything that a step says of the walkthrough is read off one state. -/
structure Pictures (step : Step) (s : Sweep) : Prop where
  environment : step.environment = s.environment
  frames : step.frames = s.stack
  memory : step.memory = s.memory
  edges : step.edges = s.edges
  structures : step.structures = s.structures

theorem pictures_stateAt {step : Step} (h : (synthesize run code language)[k]? = some step) :
    Pictures step (stateAt run code k) := by
  rcases step_cases h with ⟨item, -, rfl⟩ | ⟨-, -, rfl⟩
  · exact ⟨rfl, rfl, rfl, rfl, rfl⟩
  · exact ⟨rfl, rfl, rfl, rfl, rfl⟩

end

end Trace
end Walkthrough
