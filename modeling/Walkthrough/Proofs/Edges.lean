import Mathlib.Data.List.Forall2
import Mathlib.Data.List.Infix
import Walkthrough.Proofs.Outline

/-!
# The edges of a trace

Which edges a step shows.  Every significant line but the first has one edge, which comes
from the physical line just before it, whatever stands there.

* `edgeInto_visited`: no line after the first is without its edge;
* `edges_stateAt`: a state holds the edges of the lines up to it, in their order;
* `edges_synthesize` is the control flow of every step.
-/

namespace Walkthrough

/-- What the texts of two neighbouring lines say about the edge from one to the other. -/
structure Edge.Leads (previous current : Text) (edge : Edge) : Prop where
  flow : edge.flow =
    if "if ".toList <:+: previous then .branch
    else if "for ".toList <:+: previous ∨ "while ".toList <:+: previous then .loop
    else if "return".toList <:+: current then .return
    else if '(' ∈ current ∧ '=' ∉ current then .call
    else .sequential
  condition : edge.condition =
    if edge.flow = .branch then some (decide (¬ "else".toList <:+: current)) else none

theorem Edge.leads_between (n : Nat) (previous current : Text) :
    (between n previous current).Leads (Text.trim previous) (Text.trim current) := by
  constructor
  · simp only [between, flowBetween, Line.isCondition, Line.isLoop, Line.isReturn, Line.has,
      Text.occursIn_iff, Bool.or_eq_true, Bool.and_eq_true, Bool.not_eq_true',
      List.contains_iff_mem, ← Bool.not_eq_true]
  · simp only [between, conditionOf, Line.has, ← Text.occursIn_iff, decide_not, Bool.decide_eq_true]

/-- The edge into the line at a position of a snippet, counted from zero.  Its two ends
are line numbers, counted from one, of the part that is read. -/
structure Edge.Enters (code : Text) (index : Nat) (edge : Edge) : Prop where
  source : edge.source = index
  target : edge.target = index + 1
  source_pos : 1 ≤ edge.source
  target_le : edge.target ≤ 15
  leads : ∃ previous current, (code.splitOn '\n')[index - 1]? = some previous ∧
    (code.splitOn '\n')[index]? = some current ∧
      edge.Leads (Text.trim previous) (Text.trim current)

namespace Trace

theorem into?_readLines {code : Text} {index : Nat} (later : 0 < index)
    (read : index < (readLines code).length) :
    ∃ edge, Edge.into? (readLines code) index = some edge ∧ edge.Enters code index := by
  obtain ⟨before, rfl⟩ : ∃ before, index = before + 1 := ⟨index - 1, by omega⟩
  have previous := List.getElem?_eq_getElem (Nat.lt_of_succ_lt read)
  have current := List.getElem?_eq_getElem read
  have before_found := (getElem?_readLines_eq_some_iff.1 previous).2
  obtain ⟨early, found⟩ := getElem?_readLines_eq_some_iff.1 current
  refine ⟨_, Edge.into?_of_getElem? previous current, ?_⟩
  constructor
  case source => rfl
  case target => rfl
  case source_pos => exact Nat.le_add_left 1 before
  case target_le => exact early
  case leads => exact ⟨_, _, before_found, found, Edge.leads_between _ _ _⟩

section
variable {code : Text} {k : Nat}

/-- A line that has a step, but not the first one, has an edge. -/
theorem edgeInto_visited {item : Nat × Text} (h : (visited code)[k + 1]? = some item) :
    ∃ edge, Sweep.edgeInto (readLines code) (k + 2) item.1 = some edge ∧
      edge.Enters code item.1 := by
  obtain ⟨hk, rfl⟩ := List.getElem?_eq_some_iff.1 h
  obtain ⟨raw, found, -⟩ := mem_significantLines.1 (List.getElem_mem hk)
  have later : 0 < (visited code)[k + 1].1 := by
    have increasing := List.pairwise_iff_getElem.1 (significantLines_increasing (readLines code))
    exact Nat.zero_lt_of_lt (increasing k (k + 1) (Nat.lt_of_succ_lt hk) hk (Nat.lt_succ_self k))
  have notFirst : ¬ k + 2 = 1 := by omega
  rw [Sweep.edgeInto, if_neg notFirst]
  exact into?_readLines later (List.getElem?_eq_some_iff.1 found).1

/-- Entering a line after the first adds its edge, and nothing takes an edge away. -/
theorem edges_stateAt_succ (run : Run) {item next : Nat × Text} (h : (visited code)[k]? = some item)
    (hnext : (visited code)[k + 1]? = some next) :
    ∃ edge, edge.Enters code next.1 ∧
      (stateAt run code (k + 1)).edges = (stateAt run code k).edges ++ [edge] := by
  obtain ⟨edge, into, enters⟩ := edgeInto_visited hnext
  refine ⟨edge, enters, ?_⟩
  rw [stateAt_succ h hnext, Sweep.enter_edges, Sweep.leave_edges, into]
  rfl

theorem edges_stateAt (run : Run) (hk : k ≤ (visited code).length) :
    List.Forall₂ (fun item edge => edge.Enters code item.1) ((visited code).tail.take k)
      (stateAt run code k).edges := by
  induction k with
  | zero =>
    have none_yet : (stateAt run code 0).edges = [] := by
      cases h : (visited code)[0]? with
      | none => rw [stateAt_of_none h]; rfl
      | some item => rw [stateAt_eq_enter h, Sweep.enter_edges]; rfl
    rw [none_yet]
    exact .nil
  | succ k ih =>
    have before := ih (Nat.le_of_succ_le hk)
    have current := List.getElem?_eq_getElem hk
    have next_eq : (visited code).tail[k]? = (visited code)[k + 1]? := List.getElem?_tail
    rw [List.take_add_one, next_eq]
    cases next : (visited code)[k + 1]? with
    | none =>
      rw [stateAt_succ_of_none current next, Sweep.leave_edges]
      exact (List.append_nil _).symm ▸ before
    | some item =>
      obtain ⟨edge, enters, edges_eq⟩ := edges_stateAt_succ run current next
      rw [edges_eq]
      exact List.rel_append before (.cons enters .nil)

end

/-- **The control flow of every step.**  A step has the edges of the lines after the first
one up to its own, in their order; the step of completion has those of all of them.  An
edge comes from the physical line before its own, and the texts of the two decide its
flow.  Only a branch has a condition. -/
theorem edges_synthesize (run : Run) (code : Text) (language : Language) (k : Nat) (step : Step)
    (h : (synthesize run code language)[k]? = some step) :
    step.edges.length = min k ((visited code).length - 1) ∧
    List.Forall₂ (fun item edge => edge.Enters code item.1) ((visited code).tail.take k)
      step.edges ∧
    step.edges.Pairwise (·.target < ·.target) := by
  have enter := edges_stateAt run (le_length_of_step h)
  rw [← (pictures_stateAt h).edges] at enter
  refine ⟨?_, enter, ?_⟩
  · rw [← enter.length_eq, List.length_take, List.length_tail]
  · have increasing : ((visited code).tail.take k).Pairwise (·.1 < ·.1) :=
      (significantLines_increasing (readLines code)).tail.take
    have targets : ((visited code).tail.take k).map (·.1 + 1) = step.edges.map Edge.target := by
      rw [← List.forall₂_eq_eq_eq, List.forall₂_map_left_iff, List.forall₂_map_right_iff]
      exact enter.imp fun item edge enters => enters.target.symm
    rw [← List.pairwise_map, ← targets, List.pairwise_map]
    exact increasing.imp Nat.succ_lt_succ

/-- A comment leads into a branch, a blank line only to the return after it. -/
theorem edges_synthesize_commented :
    let code := "x = 1\n# only if asked\nelse: f(x)\n\nreturn x".toList
    ∃ step, (synthesize ⟨[], fun _ => 0, 0⟩ code .python)[2]? = some step ∧
      step.edges = [⟨2, 3, .branch, some false⟩, ⟨4, 5, .return, none⟩] ∧
      step.edges.length = min 2 ((visited code).length - 1) ∧
      List.Forall₂ (fun item edge => edge.Enters code item.1) ((visited code).tail.take 2)
        step.edges ∧
      step.edges.Pairwise (·.target < ·.target) := by
  dsimp only
  have third := List.getElem?_eq_getElem (l := synthesize ⟨[], fun _ => 0, 0⟩
    "x = 1\n# only if asked\nelse: f(x)\n\nreturn x".toList .python) (i := 2) (by decide)
  exact ⟨_, third, by decide, edges_synthesize _ _ _ _ _ third⟩

end Trace
end Walkthrough
