import Walkthrough.Proofs.Comparison
import Walkthrough.Proofs.Text.Trim

/-!
# What a step can depend on

A step depends on the lines up to its own and on nothing after them, and of these lines
only on what trimming leaves.

* `upTo_synthesize`: the steps of the first lines are those of a sweep that ends there;
* `into?_of_trimmed`: an edge sees its two lines trimmed;
* `synthesize_causal`: snippets that agree on their first lines, blanks at both ends
  aside, have the same first steps, and after fifteen lines the same trace.
-/

namespace Walkthrough

/-- A step without the time at which it was taken. -/
def Step.untimed (step : Step) : Step := { step with timestamp := 0 }

/-- The steps that are about one of the first `n` lines. -/
def Trace.upTo (n : Nat) (steps : Trace) : Trace :=
  steps.filter fun step => step.highlight.any (· ≤ n)

/-- A text with a carriage return before each line feed. -/
def Text.withCarriageReturns (t : Text) : Text :=
  t.flatMap fun c => if c = '\n' then ['\r', '\n'] else [c]

theorem Step.Alike.untimed_eq {s t : Step} (h : s.Alike Eq t) : s.untimed = t.untimed := by
  obtain ⟨number, description, environment, highlight, output, frames, memory, edges,
    structures⟩ := h
  rw [List.forall₂_eq_eq_eq] at edges
  rw [untimed, untimed, number, description, environment, highlight, output, frames, memory,
    edges, structures]

theorem Trace.map_untimed_of_alike {steps steps' : Trace}
    (h : List.Forall₂ (Step.Alike Eq) steps steps') :
    steps.map Step.untimed = steps'.map Step.untimed :=
  map_eq_map_iff_forall₂.2 (h.imp fun _ _ alike => alike.untimed_eq)

theorem Edge.rel_of_eq {edge edge' : Option Edge} (h : edge = edge') :
    Option.Rel Eq edge edge' := by
  subst h
  cases edge with
  | none => exact .none
  | some edge => exact .some rfl

/-! ## A sweep that ends early -/

namespace Trace

theorem significantLines_take (lines : List Text) (n : Nat) :
    ∃ late, significantLines lines = significantLines (lines.take n) ++ late ∧
      ∀ item ∈ late, n ≤ item.1 := by
  refine ⟨(((lines.drop n).zipIdx (lines.take n).length).filter fun entry =>
    Line.isSignificant entry.1).map fun entry => (entry.2, Text.trim entry.1), ?_, ?_⟩
  · have positions : (lines.take n ++ lines.drop n).zipIdx =
        (lines.take n).zipIdx ++ (lines.drop n).zipIdx (0 + (lines.take n).length) :=
      List.zipIdx_append
    rw [List.take_append_drop, Nat.zero_add] at positions
    rw [significantLines, significantLines, positions, List.filter_append, List.map_append]
  · intro item mem
    obtain ⟨⟨line, index⟩, filtered, rfl⟩ := List.mem_map.1 mem
    obtain ⟨le, found⟩ :=
      List.mk_mem_zipIdx_iff_le_and_getElem?_sub.1 (List.mem_of_mem_filter filtered)
    have inside := (List.getElem?_eq_some_iff.1 found).1
    rw [List.length_drop] at inside
    rw [List.length_take] at le inside
    dsimp only
    omega

theorem upTo_cons (n : Nat) {step : Step} {line : Nat} (h : step.highlight = some line)
    (steps : Trace) :
    upTo n (step :: steps) = if line ≤ n then step :: upTo n steps else upTo n steps := by
  rw [upTo, List.filter_cons, h, Option.any_some]
  simp only [decide_eq_true_eq, upTo]

section
variable {items : List (Nat × Text)} {n : Nat} (lines : List Text) (clock : Nat → Nat)
  (number : Nat) (s : Sweep)

theorem upTo_run_of_early (h : ∀ item ∈ items, item.1 < n) :
    upTo n (Sweep.run lines clock number s items).1 =
      (Sweep.run lines clock number s items).1 := by
  induction items generalizing number s with
  | nil => rfl
  | cons item rest ih =>
    have early := Nat.succ_le_of_lt (h item List.mem_cons_self)
    rw [Sweep.run_cons, upTo_cons n rfl, if_pos early]
    rw [ih _ _ fun other mem => h other (List.mem_cons_of_mem _ mem)]

theorem upTo_run_of_late (h : ∀ item ∈ items, n ≤ item.1) :
    upTo n (Sweep.run lines clock number s items).1 = [] := by
  induction items generalizing number s with
  | nil => rfl
  | cons item rest ih =>
    have late := Nat.not_le_of_lt (Nat.lt_succ_of_le (h item List.mem_cons_self))
    rw [Sweep.run_cons, upTo_cons n rfl, if_neg late]
    exact ih _ _ fun other mem => h other (List.mem_cons_of_mem _ mem)

end

/-- The steps of the first `n` lines are those of a sweep that ends after them. -/
theorem upTo_synthesize (run : Run) (code : Text) (language : Language) (n : Nat) :
    upTo n (synthesize run code language) =
      (Sweep.run (readLines code) run.clock 1 (.start run.candidates)
        (significantLines ((readLines code).take n))).1 := by
  obtain ⟨late, (split : visited code = _), late_after⟩ := significantLines_take (readLines code) n
  by_cases none : visited code = []
  · rw [synthesize_of_none none, (List.append_eq_nil_iff.1 (split.symm.trans none)).1]
    rfl
  · have early : ∀ item ∈ significantLines ((readLines code).take n), item.1 < n := by
      intro item mem
      obtain ⟨raw, found, -⟩ := mem_significantLines.1 mem
      have inside := (List.getElem?_eq_some_iff.1 found).1
      rw [List.length_take] at inside
      omega
    rw [synthesize_of_ne none, split, Sweep.run_fst_append, upTo, List.filter_append,
      List.filter_append, ← upTo, ← upTo, upTo_run_of_early _ _ _ _ early,
      upTo_run_of_late _ _ _ _ late_after, List.append_nil]
    exact List.append_nil _

/-! ## Lines that trimming makes equal -/

/-- An edge sees no more of its lines than trimming leaves. -/
theorem into?_of_trimmed {lines lines' : List Text}
    (h : List.Forall₂ (fun a b => Text.trim a = Text.trim b) lines lines') {item : Nat × Text}
    (mem : item ∈ significantLines lines) :
    Edge.into? lines item.1 = Edge.into? lines' item.1 := by
  obtain ⟨index, line⟩ := item
  obtain ⟨raw, found, -⟩ := mem_significantLines.1 mem
  have read := (List.getElem?_eq_some_iff.1 found).1
  cases index with
  | zero => rfl
  | succ before =>
    obtain ⟨_, _, _, _, -, -, previous, current, into, into'⟩ := Edge.into?_paired h read
    rw [into, into', Edge.between, Edge.between, previous, current]

theorem readLines_of_trimmed {code code' : Text} {n : Nat}
    (h : ((code.splitOn '\n').take n).map Text.trim = ((code'.splitOn '\n').take n).map Text.trim) :
    List.Forall₂ (fun a b => Text.trim a = Text.trim b) ((readLines code).take n)
      ((readLines code').take n) := by
  have first (code : Text) : (readLines code).take n = ((code.splitOn '\n').take n).take 15 := by
    rw [readLines, lineLimit, List.take_take, List.take_take, Nat.min_comm]
  rw [first, first]
  exact List.forall₂_take 15 (map_eq_map_iff_forall₂.1 h)

section
variable {run run' : Run} {code code' : Text}

theorem upTo_of_trimmed (candidates : run.candidates = run'.candidates) {n : Nat}
    (h : ((code.splitOn '\n').take n).map Text.trim = ((code'.splitOn '\n').take n).map Text.trim)
    (language : Language) :
    (upTo n (synthesize run code language)).map Step.untimed =
      (upTo n (synthesize run' code' language)).map Step.untimed := by
  have trimmed := readLines_of_trimmed h
  have same : significantLines ((readLines code).take n) =
      significantLines ((readLines code').take n) :=
    significantLines_congr (trimmed.imp fun _ _ eq => .inl eq)
  rw [upTo_synthesize, upTo_synthesize, ← same]
  apply map_untimed_of_alike
  refine (Sweep.run_alike run.clock run'.clock 1 (candidates ▸ .start _) ?_).1
  intro item mem
  obtain ⟨raw, found, -⟩ := mem_significantLines.1 mem
  have inside : item.1 < n :=
    Nat.lt_of_lt_of_le (List.getElem?_eq_some_iff.1 found).1 (List.length_take_le n _)
  rw [← Edge.into?_take (readLines code) inside, ← Edge.into?_take (readLines code') inside]
  exact Edge.rel_of_eq (into?_of_trimmed trimmed mem)

theorem synthesize_of_trimmed (candidates : run.candidates = run'.candidates)
    (h : ((code.splitOn '\n').take 15).map Text.trim = ((code'.splitOn '\n').take 15).map Text.trim)
    (language : Language) :
    (synthesize run code language).map Step.untimed =
      (synthesize run' code' language).map Step.untimed := by
  have trimmed := readLines_of_trimmed h
  have all (code : Text) : (readLines code).take 15 = readLines code :=
    List.take_of_length_le (List.length_take_le 15 _)
  rw [all, all] at trimmed
  have same : visited code = visited code' :=
    significantLines_congr (trimmed.imp fun _ _ eq => .inl eq)
  apply map_untimed_of_alike
  apply synthesize_alike candidates same
  intro item mem
  exact Edge.rel_of_eq (into?_of_trimmed trimmed mem)

end

end Trace

/-! ## Line ends -/

/-- The lines stay the same or get a carriage return at their ends. -/
theorem Text.splitOn_withCarriageReturns (t : Text) :
    List.Forall₂ (fun line line' => line' = line ∨ line' = line ++ ['\r'])
      (t.splitOn '\n') (t.withCarriageReturns.splitOn '\n') := by
  induction t with
  | nil => exact .cons (.inl rfl) .nil
  | cons c rest ih =>
    by_cases feed : c = '\n'
    · subst feed
      have split :
          withCarriageReturns ('\n' :: rest) = '\r' :: '\n' :: withCarriageReturns rest := rfl
      rw [split, List.splitOn_cons_eq_if_modifyHead, List.splitOn_cons_eq_if_modifyHead,
        List.splitOn_cons_eq_if_modifyHead]
      exact .cons (.inr rfl) ih
    · have split : withCarriageReturns (c :: rest) = c :: withCarriageReturns rest := by
        simp [withCarriageReturns, feed]
      have differs : ¬ (c == '\n') = true := by simpa using feed
      rw [split, List.splitOn_cons_eq_if_modifyHead, List.splitOn_cons_eq_if_modifyHead,
        if_neg differs, if_neg differs]
      generalize rest.splitOn '\n' = lines at ih ⊢
      generalize (withCarriageReturns rest).splitOn '\n' = lines' at ih ⊢
      cases ih with
      | nil => exact .nil
      | cons first others =>
        refine .cons ?_ others
        rcases first with rfl | rfl
        · exact .inl rfl
        · exact .inr rfl

theorem Text.trim_lines_withCarriageReturns (t : Text) :
    (t.withCarriageReturns.splitOn '\n').map trim = (t.splitOn '\n').map trim := by
  have carriage_return : ∀ c ∈ ['\r'], isBlank c = true := List.forall_mem_singleton.2 rfl
  symm
  rw [map_eq_map_iff_forall₂]
  refine (splitOn_withCarriageReturns t).imp fun line line' ends => ?_
  rcases ends with rfl | rfl
  · rfl
  · exact (trim_append_blanks line carriage_return).symm

namespace Trace

/-- **Causality.**  Let two runs have the same candidates.  If the first lines of two
snippets are equal up to blanks at their ends, so are the steps of these lines, whatever
the lines after them; and if the first fifteen lines are, the whole traces are equal.  So
the kind of line ends makes no difference, nor does anything after the fifteenth line. -/
theorem synthesize_causal (run run' : Run) (candidates : run.candidates = run'.candidates)
    (code code' : Text) (language : Language) :
    (∀ n, ((code.splitOn '\n').take n).map Text.trim = ((code'.splitOn '\n').take n).map Text.trim →
      (upTo n (synthesize run code language)).map Step.untimed =
        (upTo n (synthesize run' code' language)).map Step.untimed) ∧
    (((code.splitOn '\n').take 15).map Text.trim = ((code'.splitOn '\n').take 15).map Text.trim →
      (synthesize run code language).map Step.untimed =
        (synthesize run' code' language).map Step.untimed) ∧
    (synthesize run code.withCarriageReturns language).map Step.untimed =
      (synthesize run' code language).map Step.untimed := by
  refine ⟨?_, ?_, ?_⟩
  · intro n h
    exact upTo_of_trimmed candidates h language
  · intro h
    exact synthesize_of_trimmed candidates h language
  · apply synthesize_of_trimmed candidates
    rw [List.map_take, List.map_take, Text.trim_lines_withCarriageReturns]

/-- Two lines with other indents and line ends before another third line, and the whole
snippet with other indents. -/
theorem synthesize_causal_indented :
    let run : Run := ⟨["0x0000002a".toList], fun number => number, 3⟩
    let run' : Run := ⟨["0x0000002a".toList], fun _ => 7, 5⟩
    let code := "if a:\n  x = [1]\nreturn x".toList
    (upTo 2 (synthesize run code .java)).length = 2 ∧
    (upTo 2 (synthesize run code .java)).map Step.untimed =
      (upTo 2 (synthesize run' "\tif a:\r\nx = [1]\nfor y = x".toList .java)).map Step.untimed ∧
    (synthesize run code .java).map Step.untimed =
      (synthesize run' " if a: \nx = [1]\t\n    return x".toList .java).map Step.untimed := by
  have candidates : Run.candidates ⟨["0x0000002a".toList], fun number => number, 3⟩ =
      Run.candidates ⟨["0x0000002a".toList], fun _ => 7, 5⟩ := rfl
  refine ⟨by decide, ?_, ?_⟩
  · refine (synthesize_causal _ _ candidates _ _ _).1 2 ?_
    decide
  · refine (synthesize_causal _ _ candidates _ _ _).2.1 ?_
    decide

end Trace
end Walkthrough
