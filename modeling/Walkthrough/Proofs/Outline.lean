import Walkthrough.Proofs.States

/-!
# The outline of a trace

Which steps a snippet has, by number, highlight, description and output.  The lines that
have steps are those of the first fifteen that are neither blank nor comments, in their
order (`mem_significantLines`, `significantLines_increasing`); `synthesize_outline` reads
the outline of the whole trace off them.
-/

namespace Walkthrough

theorem Line.isSignificant_iff {line : Text} :
    Line.isSignificant line = true ↔
      Text.trim line ≠ [] ∧ ¬ "//".toList <+: Text.trim line ∧ ¬ "#".toList <+: Text.trim line := by
  simp only [isSignificant, Bool.not_eq_true', Bool.or_eq_false_iff, List.isEmpty_eq_false_iff,
    and_assoc, ne_eq, ← List.isPrefixOf_iff_prefix, Bool.not_eq_true]
  rfl

namespace Trace

theorem mem_significantLines {lines : List Text} {index : Nat} {line : Text} :
    (index, line) ∈ significantLines lines ↔
      ∃ raw, lines[index]? = some raw ∧ Line.isSignificant raw = true ∧ line = Text.trim raw := by
  simp only [significantLines, List.mem_map, List.mem_filter, Prod.exists, Prod.mk.injEq,
    List.mk_mem_zipIdx_iff_getElem?]
  constructor
  · rintro ⟨raw, position, ⟨found, significant⟩, rfl, rfl⟩
    exact ⟨raw, found, significant, rfl⟩
  · rintro ⟨raw, found, significant, rfl⟩
    exact ⟨raw, index, ⟨found, significant⟩, rfl, rfl⟩

theorem significantLines_increasing (lines : List Text) :
    (significantLines lines).Pairwise (·.1 < ·.1) := by
  have positions : lines.zipIdx.Pairwise (·.2 < ·.2) := by
    have range := List.pairwise_lt_range' (s := 0) (n := lines.length) 1
    rwa [← List.zipIdx_map_snd, List.pairwise_map] at range
  exact List.pairwise_map.2 (positions.filter _)

theorem getElem?_readLines_eq_some_iff {code line : Text} {index : Nat} :
    (readLines code)[index]? = some line ↔
      index < 15 ∧ (code.splitOn '\n')[index]? = some line := by
  simp [readLines, lineLimit, List.getElem?_take]

/-- A line that has a step is one of the first fifteen, and neither blank nor a comment. -/
theorem mem_visited {code : Text} {index : Nat} {line : Text} :
    (index, line) ∈ visited code ↔ index < 15 ∧ ∃ raw, (code.splitOn '\n')[index]? = some raw ∧
      line = Text.trim raw ∧ line ≠ [] ∧ ¬ "//".toList <+: line ∧ ¬ "#".toList <+: line := by
  simp only [mem_significantLines, getElem?_readLines_eq_some_iff, Line.isSignificant_iff]
  constructor
  · rintro ⟨raw, ⟨early, found⟩, significant, rfl⟩
    exact ⟨early, raw, found, rfl, significant⟩
  · rintro ⟨early, raw, found, rfl, significant⟩
    exact ⟨raw, ⟨early, found⟩, significant, rfl⟩

/-- The highlighted lines, counted from one, are the lines that have steps. -/
theorem highlights_synthesize (run : Run) (code : Text) (language : Language) :
    (synthesize run code language).filterMap Step.highlight =
      (visited code).map (·.1 + 1) := by
  have of_run (lines : List Text) (number : Nat) (s : Sweep) (items : List (Nat × Text)) :
      (Sweep.run lines run.clock number s items).1.filterMap Step.highlight =
        items.map (·.1 + 1) := by
    induction items generalizing number s with
    | nil => rfl
    | cons item rest ih => exact congrArg (List.cons (item.1 + 1)) (ih (number + 1) _)
  by_cases none : visited code = []
  · rw [synthesize_of_none none, none]
    rfl
  · rw [synthesize_of_ne none, List.filterMap_append, of_run]
    exact List.append_nil _

/-- **The outline of a trace.** With the significant lines among the first fifteen in
their order, a trace has a step for each of them and the step of completion after them,
or no step at all when there are none. -/
theorem synthesize_outline (run : Run) (code : Text) (language : Language) :
    let found := visited code
    let steps := synthesize run code language
    (found.Pairwise (·.1 < ·.1) ∧
      ∀ index line, (index, line) ∈ found ↔
        index < 15 ∧ ∃ raw, (code.splitOn '\n')[index]? = some raw ∧ line = Text.trim raw ∧
          line ≠ [] ∧ ¬ "//".toList <+: line ∧ ¬ "#".toList <+: line) ∧
    (steps = [] ↔ found = []) ∧
    (∀ i index line, found[i]? = some (index, line) →
      ∃ step, steps[i]? = some step ∧ step.number = i + 1 ∧ step.highlight = some (index + 1) ∧
        step.description = Line.describe line ∧ step.output = none) ∧
    (found ≠ [] → steps.length = found.length + 1 ∧
      ∃ step, steps[found.length]? = some step ∧ step.number = found.length + 1 ∧
        step.highlight = none ∧ step.description = "Execution completed".toList ∧
        step.output = some language.cannedOutput) ∧
    (steps.filterMap Step.highlight).Pairwise (· < ·) ∧
    ∀ n ∈ steps.filterMap Step.highlight, 1 ≤ n ∧ n ≤ 15 := by
  dsimp only
  have increasing := significantLines_increasing (readLines code)
  refine ⟨⟨increasing, fun _ _ => mem_visited⟩, synthesize_eq_nil_iff, ?_, ?_, ?_, ?_⟩
  · intro i index line found
    exact ⟨_, getElem?_synthesize_line found, rfl, rfl, rfl, rfl⟩
  · intro some_line
    exact ⟨length_synthesize some_line, _, getElem?_synthesize_end some_line, rfl, rfl, rfl, rfl⟩
  · rw [highlights_synthesize, List.pairwise_map]
    exact increasing.imp fun h => Nat.succ_lt_succ h
  · intro n hn
    rw [highlights_synthesize] at hn
    obtain ⟨⟨index, line⟩, visits, rfl⟩ := List.mem_map.1 hn
    have early := (mem_visited.1 visits).1
    dsimp only
    omega

end Trace
end Walkthrough
