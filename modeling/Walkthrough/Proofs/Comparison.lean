import Mathlib.Data.List.Forall2
import Walkthrough.Proofs.Outline

/-!
# Comparing two walkthroughs

What statements about two traces at once share.  Two sweeps that start with the same
candidates and meet the same significant lines stay alike, whatever else stands in their
snippets: only the edges can differ, since an edge alone is read off a line that may not
be significant.

* `run_alike` carries a relation of edges through a run, `synthesize_alike` through a
  whole trace;
* `significantLines_congr` says when two snippets have the same significant lines;
* `into?_paired` gives the two edges into a line, side by side.
-/

namespace Walkthrough

/-- Two states that differ in their edges only, and in these as far as `R` allows. -/
structure Sweep.Alike (R : Edge → Edge → Prop) (s t : Sweep) : Prop where
  environment : s.environment = t.environment
  stack : s.stack = t.stack
  memory : s.memory = t.memory
  edges : List.Forall₂ R s.edges t.edges
  structures : s.structures = t.structures
  candidates : s.candidates = t.candidates

/-- Two steps that differ in their timestamps and edges only, and in the edges as far as
`R` allows. -/
structure Step.Alike (R : Edge → Edge → Prop) (s t : Step) : Prop where
  number : s.number = t.number
  description : s.description = t.description
  environment : s.environment = t.environment
  highlight : s.highlight = t.highlight
  output : s.output = t.output
  frames : s.frames = t.frames
  memory : s.memory = t.memory
  edges : List.Forall₂ R s.edges t.edges
  structures : s.structures = t.structures

/-- Two lines that trimming makes equal, or that both have no step. -/
def Line.Interchangeable (line line' : Text) : Prop :=
  Text.trim line = Text.trim line' ∨ (isSignificant line = false ∧ isSignificant line' = false)

theorem map_eq_map_iff_forall₂ {α β γ : Type} {f : α → γ} {g : β → γ} {xs : List α} {ys : List β} :
    xs.map f = ys.map g ↔ List.Forall₂ (fun x y => f x = g y) xs ys := by
  rw [← List.forall₂_eq_eq_eq, List.forall₂_map_left_iff, List.forall₂_map_right_iff]

theorem Line.isSignificant_congr {line line' : Text} (h : Text.trim line = Text.trim line') :
    isSignificant line = isSignificant line' := by
  unfold isSignificant
  rw [h]

/-! ## Two runs -/

namespace Sweep

section
variable {R : Edge → Edge → Prop} {s t : Sweep}

theorem Alike.start (candidates : List Address) :
    Alike R (.start candidates) (.start candidates) :=
  ⟨rfl, rfl, rfl, .nil, rfl, rfl⟩

theorem Alike.enter (h : s.Alike R t) {edge edge' : Option Edge} (related : Option.Rel R edge edge')
    (lineNumber : Nat) (line : Text) :
    (s.enter edge lineNumber line).Alike R (t.enter edge' lineNumber line) := by
  constructor
  case environment => rw [enter_environment, enter_environment, h.environment]
  case stack => rw [enter_stack, enter_stack, h.stack]
  case memory => rw [enter_memory, enter_memory, h.memory, h.candidates, h.environment]
  case edges =>
    rw [enter_edges, enter_edges]
    cases related with
    | none => exact List.rel_append h.edges .nil
    | some related => exact List.rel_append h.edges (.cons related .nil)
  case structures => rw [enter_structures, enter_structures, h.structures, h.environment]
  case candidates => rw [enter_candidates, enter_candidates, h.memory, h.candidates]

theorem Alike.leave (h : s.Alike R t) (line : Text) : (s.leave line).Alike R (t.leave line) := by
  constructor
  case stack => rw [leave_stack, leave_stack, h.stack]
  all_goals simp only [leave_environment, leave_memory, leave_edges, leave_structures,
    leave_candidates, h.environment, h.memory, h.edges, h.structures, h.candidates]

theorem Alike.step (h : s.Alike R t) (clock clock' : Nat → Nat) (number lineNumber : Nat)
    (line : Text) :
    (s.step clock number lineNumber line).Alike R (t.step clock' number lineNumber line) :=
  ⟨rfl, rfl, h.environment, rfl, rfl, h.stack, h.memory, h.edges, h.structures⟩

theorem Alike.completionStep (h : s.Alike R t) (clock clock' : Nat → Nat) (number : Nat)
    (output : Text) :
    (s.completionStep clock number output).Alike R (t.completionStep clock' number output) :=
  ⟨rfl, rfl, h.environment, rfl, rfl, h.stack, h.memory, h.edges, h.structures⟩

/-- Over the same significant lines two runs stay alike if the edges into these lines do. -/
theorem run_alike {lines lines' : List Text} (clock clock' : Nat → Nat)
    {items : List (Nat × Text)} (number : Nat) (h : s.Alike R t)
    (related : ∀ item ∈ items, Option.Rel R (Edge.into? lines item.1) (Edge.into? lines' item.1)) :
    List.Forall₂ (Step.Alike R) (run lines clock number s items).1
        (run lines' clock' number t items).1 ∧
      (run lines clock number s items).2.Alike R (run lines' clock' number t items).2 := by
  induction items generalizing number s t with
  | nil => exact ⟨.nil, h⟩
  | cons item rest ih =>
    have edges : Option.Rel R (edgeInto lines number item.1) (edgeInto lines' number item.1) := by
      unfold edgeInto
      split
      · exact .none
      · exact related item List.mem_cons_self
    have shown := h.enter edges (item.1 + 1) item.2
    obtain ⟨steps, last⟩ := ih (number + 1) (shown.leave item.2) fun other mem =>
      related other (List.mem_cons_of_mem _ mem)
    exact ⟨.cons (shown.step ..) steps, last⟩

end

end Sweep

/-! ## The lines of two snippets -/

/-- The edges into a line of two snippets whose lines are paired. -/
theorem Edge.into?_paired {P : Text → Text → Prop} {lines lines' : List Text}
    (h : List.Forall₂ P lines lines') {before : Nat} (read : before + 1 < lines.length) :
    ∃ previous current previous' current',
      lines[before]? = some previous ∧ lines[before + 1]? = some current ∧
      P previous previous' ∧ P current current' ∧
      into? lines (before + 1) = some (.between (before + 1) previous current) ∧
      into? lines' (before + 1) = some (.between (before + 1) previous' current') := by
  have read' : before + 1 < lines'.length := h.length_eq ▸ read
  have previous := List.getElem?_eq_getElem (Nat.lt_of_succ_lt read)
  have current := List.getElem?_eq_getElem read
  have previous' := List.getElem?_eq_getElem (Nat.lt_of_succ_lt read')
  have current' := List.getElem?_eq_getElem read'
  exact ⟨_, _, _, _, previous, current, h.get (Nat.lt_of_succ_lt read) (Nat.lt_of_succ_lt read'),
    h.get read read', into?_of_getElem? previous current, into?_of_getElem? previous' current'⟩

namespace Trace

theorem significantLines_congr {lines lines' : List Text}
    (h : List.Forall₂ Line.Interchangeable lines lines') :
    significantLines lines = significantLines lines' := by
  -- the positions have to be generalised over where the list starts
  have from_position (k : Nat) :
      ((lines.zipIdx k).filter fun entry => Line.isSignificant entry.1).map
          (fun entry => (entry.2, Text.trim entry.1)) =
        ((lines'.zipIdx k).filter fun entry => Line.isSignificant entry.1).map
          (fun entry => (entry.2, Text.trim entry.1)) := by
    induction h generalizing k with
    | nil => rfl
    | cons pair _ ih =>
      rw [List.zipIdx_cons, List.zipIdx_cons, List.filter_cons, List.filter_cons]
      rcases pair with same | ⟨skipped, skipped'⟩
      · simp only [Line.isSignificant_congr same]
        split
        · simp only [List.map_cons, same, ih]
        · exact ih (k + 1)
      · simp only [skipped, skipped', Bool.false_eq_true, if_false]
        exact ih (k + 1)
  exact from_position 0

/-- Two traces over the same significant lines are alike if the edges into these are. -/
theorem synthesize_alike {R : Edge → Edge → Prop} {run run' : Run}
    (candidates : run.candidates = run'.candidates) {code code' : Text}
    (same : visited code = visited code')
    (related : ∀ item ∈ visited code,
      Option.Rel R (Edge.into? (readLines code) item.1) (Edge.into? (readLines code') item.1))
    (language : Language) :
    List.Forall₂ (Step.Alike R) (synthesize run code language)
      (synthesize run' code' language) := by
  have alike : Sweep.Alike R (.start run.candidates) (.start run'.candidates) :=
    candidates ▸ .start run.candidates
  obtain ⟨steps_alike, last_alike⟩ := Sweep.run_alike run.clock run'.clock 1 alike related
  unfold synthesize sweep
  dsimp only
  rw [show significantLines (readLines code') = visited code from same.symm]
  generalize Sweep.run (readLines code) run.clock 1 (.start run.candidates) (visited code) =
    result at *
  generalize Sweep.run (readLines code') run'.clock 1 (.start run'.candidates) (visited code) =
    result' at *
  obtain ⟨steps, last⟩ := result
  obtain ⟨steps', last'⟩ := result'
  cases steps_alike with
  | nil => exact .nil
  | cons first rest =>
    have completion := last_alike.completionStep run.clock run'.clock
    have length_eq := rest.length_eq
    dsimp only [List.length_cons]
    rw [length_eq]
    exact List.rel_append (.cons first rest) (.cons (completion _ _) .nil)

end Trace
end Walkthrough
