import Walkthrough.Proofs.Comparison

/-!
# What skipped lines can change

A blank line or a comment has no step, but the next significant line has an edge that
comes from it.  `synthesize_interchangeable` says that this edge is all that it can
change, and of the edge only the flow and the condition: which blank lines and comments
stand in a snippet shows nowhere else.
-/

namespace Walkthrough

/-- Two edges with the same ends, and with the same flow unless they come from a line of
the snippet that is skipped. -/
structure Edge.AlikeBeyondSkipped (code : Text) (edge edge' : Edge) : Prop where
  source : edge.source = edge'.source
  target : edge.target = edge'.target
  flow : ∀ line, (code.splitOn '\n')[edge.source - 1]? = some line →
    Line.isSignificant line = true → edge.flow = edge'.flow ∧ edge.condition = edge'.condition

theorem Line.Interchangeable.trim_eq {line line' : Text} (h : Interchangeable line line')
    (significant : isSignificant line = true) : Text.trim line = Text.trim line' := by
  rcases h with same | ⟨skipped, -⟩
  · exact same
  · rw [significant] at skipped
    cases skipped

namespace Trace

/-- The edges into a line that has a step, over two snippets with interchangeable lines. -/
theorem into?_of_interchangeable {code code' : Text}
    (h : List.Forall₂ Line.Interchangeable (readLines code) (readLines code'))
    {item : Nat × Text} (mem : item ∈ visited code) :
    Option.Rel (Edge.AlikeBeyondSkipped code) (Edge.into? (readLines code) item.1)
      (Edge.into? (readLines code') item.1) := by
  obtain ⟨index, line⟩ := item
  obtain ⟨raw, found, significant, -⟩ := mem_significantLines.1 mem
  cases index with
  | zero => exact .none
  | succ before =>
    obtain ⟨previous, current, previous', current', at_previous, at_current, pair, pair_current,
      into, into'⟩ := Edge.into?_paired h (List.getElem?_eq_some_iff.1 found).1
    obtain rfl := Option.some.inj (found.symm.trans at_current)
    rw [into, into']
    refine .some ⟨rfl, rfl, ?_⟩
    intro source at_source source_significant
    have physical := (getElem?_readLines_eq_some_iff.1 at_previous).2
    obtain rfl := Option.some.inj (physical.symm.trans at_source)
    rw [Edge.between, Edge.between, pair.trim_eq source_significant,
      pair_current.trim_eq significant]
    exact ⟨rfl, rfl⟩

/-- **Skipped lines leak into edges only.**  Let two runs have the same candidates, and two
snippets the same first fifteen lines, except for blanks at the ends of lines and for what
stands in blank lines and comments.  Then the two traces differ in their timestamps at
most, and in the flow and the condition of edges that come from a blank line or a comment. -/
theorem synthesize_interchangeable (run run' : Run) (candidates : run.candidates = run'.candidates)
    (code code' : Text) (language : Language)
    (h : List.Forall₂ Line.Interchangeable ((code.splitOn '\n').take 15)
      ((code'.splitOn '\n').take 15)) :
    List.Forall₂ (Step.Alike (Edge.AlikeBeyondSkipped code)) (synthesize run code language)
      (synthesize run' code' language) := by
  have same : visited code = visited code' := significantLines_congr h
  apply synthesize_alike candidates same
  intro item mem
  exact into?_of_interchangeable h mem

/-- A comment may turn the next line into a branch, and does no more. -/
theorem synthesize_interchangeable_commented :
    let run : Run := ⟨[], fun _ => 0, 0⟩
    let code := "x = 1\n# if so\ny = x".toList
    let code' := " x = 1\n\ny = x\r".toList
    List.Forall₂ Line.Interchangeable ((code.splitOn '\n').take 15) ((code'.splitOn '\n').take 15) ∧
    (synthesize run code .python).map (·.edges) ≠ (synthesize run code' .python).map (·.edges) ∧
    List.Forall₂ (Step.Alike (Edge.AlikeBeyondSkipped code)) (synthesize run code .python)
      (synthesize run code' .python) := by
  dsimp only
  have paired : List.Forall₂ Line.Interchangeable
      (("x = 1\n# if so\ny = x".toList.splitOn '\n').take 15)
      ((" x = 1\n\ny = x\r".toList.splitOn '\n').take 15) :=
    .cons (.inl (by decide)) (.cons (.inr (by decide)) (.cons (.inl (by decide)) .nil))
  exact ⟨paired, by decide, synthesize_interchangeable _ _ rfl _ _ _ paired⟩

end Trace
end Walkthrough
