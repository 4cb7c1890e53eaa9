import Walkthrough.Proofs.Calls
import Walkthrough.Proofs.Checked
import Walkthrough.Proofs.Outline

/-!
# Responses to one request

The two operations on a request share its validation.  A rejected request has the same
response from both; an accepted one has the steps of its trace from one of them only, and
the same output from both, unless none of its first lines is significant
(`output_synthesize`).  The guards never make a failure of it (`Snippet.visualize_eq`).
-/

namespace Walkthrough

/-! ## The output of a trace -/

namespace Trace

theorem filterMap_output_run (lines : List Text) (clock : Nat → Nat) (number : Nat) (s : Sweep)
    (items : List (Nat × Text)) :
    (Sweep.run lines clock number s items).1.filterMap Step.output = [] := by
  induction items generalizing number s with
  | nil => rfl
  | cons item rest ih => exact ih (number + 1) _

/-- Only the step of completion has an output, and a trace without steps lacks it. -/
theorem output_synthesize (run : Run) (code : Text) (language : Language) :
    output (synthesize run code language) =
      if visited code = [] then completion else language.cannedOutput := by
  by_cases none : visited code = []
  · rw [synthesize_of_none none, if_pos none]
    rfl
  · rw [synthesize_of_ne none, if_neg none, output, List.filterMap_append, filterMap_output_run]
    exact List.append_nil _

/-- Some line that is read is neither blank nor a comment. -/
def HasSignificantLine (code : Text) : Prop :=
  ∃ line ∈ (code.splitOn '\n').take 15, Text.trim line ≠ [] ∧
    ¬ "//".toList <+: Text.trim line ∧ ¬ "#".toList <+: Text.trim line

theorem visited_ne_nil_iff {code : Text} : visited code ≠ [] ↔ HasSignificantLine code := by
  constructor
  · intro some_line
    obtain ⟨⟨index, line⟩, visits⟩ := List.exists_mem_of_ne_nil _ some_line
    obtain ⟨raw, found, significant, -⟩ := mem_significantLines.1 visits
    exact ⟨raw, List.mem_of_getElem? found, Line.isSignificant_iff.1 significant⟩
  · rintro ⟨raw, read, significant⟩
    obtain ⟨index, found⟩ := List.mem_iff_getElem?.1 read
    apply List.ne_nil_of_mem (a := (index, Text.trim raw))
    exact mem_significantLines.2 ⟨raw, found, Line.isSignificant_iff.2 significant, rfl⟩

end Trace

/-! ## The two kinds of responses -/

/-- The response to a request that failed validation. -/
structure Response.Rejects (response : Response) (errors : FieldErrors) : Prop where
  failure : response.isSuccess = false
  error : response.error? = some errors.message
  output : response.output? = none
  steps : response.steps? = none
  elapsed : response.elapsed? = none

/-- The response to a request that passed validation. -/
structure Response.Accepts (response : Response) (output : Text) (steps : Option Trace) : Prop where
  success : response.isSuccess = true
  error : response.error? = none
  output : response.output? = some output
  steps : response.steps? = steps
  elapsed : response.elapsed?.isSome = true

theorem Response.rejected_rejects (errors : FieldErrors) : (rejected errors).Rejects errors :=
  ⟨rfl, rfl, rfl, rfl, rfl⟩

theorem Response.executed_accepts (output : Text) (elapsed : Nat) :
    (executed output elapsed).Accepts output none :=
  ⟨rfl, rfl, rfl, rfl, rfl⟩

theorem Response.visualized_accepts (steps : Trace) (output : Text) (elapsed : Nat) :
    (visualized steps output elapsed).Accepts output (some steps) :=
  ⟨rfl, rfl, rfl, rfl, rfl⟩

section
variable {r : Request}

theorem Operation.respond_of_error {errors : FieldErrors} (invalid : r.validate = .error errors)
    (operation : Operation) (run : Run) : operation.respond run r = .rejected errors := by
  cases operation with
  | execute => rw [respond, Request.execute, invalid]
  | visualize => rw [respond, Request.visualize, invalid]

variable {snippet : Snippet} (valid : r.validate = .ok snippet) (run : Run)
include valid

theorem Request.execute_accepts :
    (r.execute run).Accepts snippet.language.cannedOutput none := by
  simp only [execute, valid, Snippet.execute_eq]
  exact Response.executed_accepts _ _

theorem Request.visualize_accepts :
    (r.visualize run).Accepts (Trace.output (snippet.trace run)) (some (snippet.trace run)) := by
  simp only [visualize, valid, Snippet.visualize_eq]
  exact Response.visualized_accepts _ _ _

theorem Operation.respond_accepts (operation : Operation) :
    ∃ output steps, (operation.respond run r).Accepts output steps ∧
      (steps.isSome = true → operation = .visualize) := by
  cases operation with
  | execute => exact ⟨_, _, Request.execute_accepts valid run, fun some_steps => nomatch some_steps⟩
  | visualize => exact ⟨_, _, Request.visualize_accepts valid run, fun _ => rfl⟩

end

/-- **The two operations on a request.**  If it fails validation, both give the same
failure, with the message of the validation and nothing else.  If it passes, both succeed
with a time: executing it gives the fixed output of its language and no steps; visualizing
it gives the steps of its trace, and the same output if there are any.  Whatever the
operation, a response has an output exactly if it succeeds, and an error otherwise; only a
successful visualization has steps, and only a failed validation makes a failure: no operation
is ever broken off. -/
theorem Request.operations_agree (r : Request) :
    (∀ errors, r.validate = .error errors →
      ∃ response : Response, response.Rejects errors ∧
        ∀ (operation : Operation) run, operation.respond run r = response) ∧
    (∀ snippet, r.validate = .ok snippet → ∀ run,
      (r.execute run).Accepts snippet.language.cannedOutput none ∧
      ∃ output, (r.visualize run).Accepts output
          (some (Trace.synthesize run snippet.code snippet.language)) ∧
        (Trace.HasSignificantLine snippet.code → output = snippet.language.cannedOutput) ∧
        (¬ Trace.HasSignificantLine snippet.code → output = "Execution completed".toList)) ∧
    ∀ (operation : Operation) run,
      let response := operation.respond run r
      (response.isSuccess = true ↔ response.output?.isSome = true) ∧
      (response.isSuccess = true ↔ response.error? = none) ∧
      (response.steps?.isSome = true → operation = .visualize ∧ response.isSuccess = true) ∧
      (response.isSuccess = false → ∃ errors, r.validate = .error errors) ∧
      ∀ message elapsed, response ≠ .failed message elapsed := by
  refine ⟨?_, ?_, ?_⟩
  · intro errors invalid
    refine ⟨.rejected errors, Response.rejected_rejects errors, ?_⟩
    intro operation run
    exact operation.respond_of_error invalid run
  · intro snippet valid run
    refine ⟨execute_accepts valid run, _, visualize_accepts valid run, ?_, ?_⟩
    · intro significant
      rw [Snippet.trace, Trace.output_synthesize, if_neg (Trace.visited_ne_nil_iff.2 significant)]
    · intro insignificant
      have none := not_not.1 (mt Trace.visited_ne_nil_iff.1 insignificant)
      rw [Snippet.trace, Trace.output_synthesize, if_pos none]
      rfl
  · intro operation run
    cases validated : r.validate with
    | error errors =>
      rw [operation.respond_of_error validated run]
      have rejects := Response.rejected_rejects errors
      simp [rejects.failure, rejects.output, rejects.error, rejects.steps]
    | ok snippet =>
      obtain ⟨output, steps, accepts, only⟩ := operation.respond_accepts validated run
      have unbroken (message : Text) (elapsed : Nat) :
          operation.respond run r ≠ .failed message elapsed := by
        intro failed
        have success := accepts.success
        rw [failed] at success
        cases success
      simp only [accepts.success, accepts.output, accepts.error, accepts.steps]
      simpa using ⟨only, unbroken⟩

end Walkthrough
