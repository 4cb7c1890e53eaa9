import Walkthrough.Proofs.StraightLine.Statements

/-!
# Straight-line programs keep their meaning

A walkthrough that never evaluates anything still traces a straight-line program as it
runs: the variables of each step are the store after the statements up to it.  The lines
of the program are its statements (`getElem?_visited_source`); `environment_stateBefore`
carries the store from statement to statement, and `synthesize_source` reads it off the
steps.
-/

namespace Walkthrough.StraightLine

open Trace

theorem Statement.newline_not_mem (s : Statement) : '\n' ∉ s.render := by
  have ending : '\n' ∉ s.ending := by
    unfold Statement.ending
    split <;> decide
  have declaration : '\n' ∉ s.declaration ++ [' '] := s.declaration_not_mem (by decide)
  have expression : '\n' ∉ s.expression.render := s.expression.not_mem (by decide)
  rw [s.render_eq]
  simp only [List.mem_append, List.mem_cons, not_or] at declaration ⊢
  exact ⟨declaration, by decide, by decide, expression, ending⟩

theorem splitOn_source {program : List Statement} (h : program ≠ []) :
    (source program).splitOn '\n' = program.map Statement.render := by
  apply List.splitOn_intercalate
  · intro line hl
    obtain ⟨s, -, rfl⟩ := List.mem_map.1 hl
    exact s.newline_not_mem
  · simpa using h

/-- Every statement is a line of its own that has a step. -/
theorem getElem?_visited_source {program : List Statement} (h : program.length ≤ 15) (k : Nat) :
    (visited (source program))[k]? = program[k]?.map fun s => (k, s.render) := by
  by_cases empty : program = []
  · rw [empty]
    rfl
  · have lines : readLines (source program) = program.map Statement.render := by
      rw [readLines, splitOn_source empty, List.take_of_length_le (by simpa [lineLimit] using h)]
    have all : ∀ item ∈ (program.map Statement.render).zipIdx,
        Line.isSignificant item.1 = true := by
      rintro ⟨line, index⟩ mem
      obtain ⟨s, -, rfl⟩ := List.mem_map.1 (List.fst_mem_of_mem_zipIdx mem)
      exact s.isSignificant_render
    rw [visited, lines, significantLines, List.filter_eq_self.2 all, List.getElem?_map,
      List.getElem?_zipIdx, List.getElem?_map]
    cases program[k]? with
    | none => rfl
    | some s => simp [s.trimmed.trim_eq]

theorem length_visited_source {program : List Statement} (h : program.length ≤ 15) :
    (visited (source program)).length = program.length := by
  have at_end := getElem?_visited_source h
  apply Nat.le_antisymm
  · rw [← List.getElem?_eq_none_iff, at_end, List.getElem?_eq_none (Nat.le_refl _)]
    rfl
  · have none := at_end (visited (source program)).length
    rw [List.getElem?_eq_none (Nat.le_refl _)] at none
    exact List.getElem?_eq_none_iff.1 (Option.map_eq_none_iff.1 none.symm)

section
variable {run : Run} {program : List Statement} {k : Nat}

theorem storeAfter_take_succ {s : Statement} (h : program[k]? = some s) :
    storeAfter (program.take (k + 1)) = s.exec (storeAfter (program.take k)) := by
  obtain ⟨hk, rfl⟩ := List.getElem?_eq_some_iff.1 h
  rw [← List.take_append_getElem hk, storeAfter, List.foldl_append]
  rfl

/-- A statement takes the variables from one store to the next. -/
theorem environment_stateAt {s : Statement} (h : program.length ≤ 15) (hs : program[k]? = some s)
    (before : (stateBefore run (source program) k).environment.get? =
      storeAfter (program.take k)) :
    (stateAt run (source program) k).environment.get? = storeAfter (program.take (k + 1)) := by
  have line : (visited (source program))[k]? = some (k, s.render) := by
    rw [getElem?_visited_source h, hs, Option.map_some]
  rw [stateAt_eq_enter line, Sweep.enter_environment, if_pos s.isAssignment_render,
    s.valueOf_render, before, s.read_render, storeAfter_take_succ hs]
  funext name
  rw [Dictionary.get?_insert, before]
  rfl

theorem environment_stateBefore (h : program.length ≤ 15) (hk : k ≤ program.length) :
    (stateBefore run (source program) k).environment.get? = storeAfter (program.take k) := by
  induction k with
  | zero => rfl
  | succ k ih =>
    have hs := List.getElem?_eq_getElem (l := program) (i := k) hk
    have line := getElem?_visited_source h k
    rw [hs, Option.map_some] at line
    rw [stateBefore_succ line, Sweep.leave_environment]
    exact environment_stateAt h hs (ih (by omega))

end

/-- **Straight-line programs are traced as they run.** A program of at most fifteen
statements has a step for each of them, whose variables are the store that the statements
up to it leave, and a step of completion with the last store. -/
theorem synthesize_source (run : Run) (language : Language) (program : List Statement)
    (h : program.length ≤ 15) :
    (synthesize run (source program) language).length =
      (if program = [] then 0 else program.length + 1) ∧
    (∀ k < program.length, ∃ step, (synthesize run (source program) language)[k]? = some step ∧
      step.highlight = some (k + 1) ∧
      step.environment.get? = storeAfter (program.take (k + 1))) ∧
    (program ≠ [] → ∃ step,
      (synthesize run (source program) language)[program.length]? = some step ∧
      step.highlight = none ∧ step.environment.get? = storeAfter program) := by
  have length_eq := length_visited_source h
  have visits (some_statement : program ≠ []) : visited (source program) ≠ [] := by
    rw [← List.length_pos_iff, length_eq]
    exact List.length_pos_iff.2 some_statement
  refine ⟨?_, ?_, ?_⟩
  · split
    · rename_i none
      rw [none]
      rfl
    · rename_i some_statement
      rw [length_synthesize (visits some_statement), length_eq]
  · intro k hk
    have hs := List.getElem?_eq_getElem hk
    have line := getElem?_visited_source h k
    rw [hs, Option.map_some] at line
    exact ⟨_, getElem?_synthesize_line line, rfl,
      environment_stateAt h hs (environment_stateBefore h (Nat.le_of_lt hk))⟩
  · intro some_statement
    have last : (synthesize run (source program) language)[(visited (source program)).length]? =
        some _ := getElem?_synthesize_end (visits some_statement)
    rw [length_eq] at last
    refine ⟨_, last, rfl, ?_⟩
    have ended : (visited (source program))[program.length]? = none :=
      List.getElem?_eq_none_iff.2 (Nat.le_of_eq length_eq)
    change (stateAt run (source program) program.length).environment.get? = storeAfter program
    rw [stateAt_of_none ended, environment_stateBefore h (Nat.le_refl _), List.take_length]

/-- A text that looks like a list is copied as a text. -/
theorem synthesize_source_copied :
    ∃ program : List Statement,
      source program = "final int x = '[1, 2]'\ny = x;".toList ∧ program.length ≤ 15 ∧
      ∃ step, (synthesize ⟨[], fun _ => 0, 0⟩ (source program) .java)[2]? = some step ∧
        step.environment.get? "y".toList = some (.text "[1, 2]".toList) := by
  let x : Identifier := ⟨"x".toList, ⟨'x', [], rfl, by decide⟩, List.forall_mem_singleton.2 rfl⟩
  let y : Identifier := ⟨"y".toList, ⟨'y', [], rfl, by decide⟩, List.forall_mem_singleton.2 rfl⟩
  let brackets : Quotation :=
    ⟨'\'', "[1, 2]".toList, by decide, by decide, by decide, by decide⟩
  let declaration : Statement :=
    ⟨[⟨"final".toList, by decide, 0⟩, ⟨"int".toList, by decide, 0⟩], x, .quotation brackets, false⟩
  let copy : Statement := ⟨[], y, .copy x, true⟩
  have short : [declaration, copy].length ≤ 15 := by simp
  obtain ⟨-, -, completion⟩ :=
    synthesize_source ⟨[], fun _ => 0, 0⟩ .java [declaration, copy] short
  obtain ⟨step, found, -, store⟩ := completion (by simp)
  exact ⟨[declaration, copy], rfl, short, step, found, by rw [store]; rfl⟩

end Walkthrough.StraightLine
