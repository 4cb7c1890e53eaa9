import Walkthrough.Export.Listing
import Walkthrough.Proofs.Display
import Walkthrough.Proofs.Responses

/-!
# The lines of a listing

A listing escapes nothing.  It still cannot be forged, as no line feed of a snippet reaches
what is listed: a snippet is cut at its line feeds first, and names, values, functions and
previews are parts of one line (`lineFeed_not_mem_target`, `lineFeed_not_mem_functionName`,
`lineFeed_not_mem_describe`).  So the lines of the listing are those of its steps
(`splitOn_listing`), and of them the headers alone start with a number sign:
`synthesize_listing`.
-/

namespace Walkthrough

/-! ## Parts of a line -/

theorem Line.lineFeed_not_mem_describe {line : Text} (whole : '\n' ∉ line) :
    '\n' ∉ describe line := by
  unfold describe
  split
  case h_7 =>
    intro feed
    rcases List.mem_append.1 feed with start | preview
    · revert start
      decide
    · exact whole (List.mem_of_mem_take preview)
  all_goals decide

theorem Text.upTo_subset (stop : Char → Bool) (t : Text) : upTo stop t ⊆ t :=
  (List.takeWhile_prefix _).subset

namespace Line.Assignment

theorem withoutModifiers_subset (skip : Nat) (t : Text) : withoutModifiers skip t ⊆ t := by
  induction t generalizing skip with
  | nil => exact List.Subset.refl _
  | cons c rest ih =>
    cases skip with
    | succ skip => exact List.subset_cons_of_subset c (ih skip)
    | zero =>
      rw [withoutModifiers]
      split
      · exact List.cons_subset_cons c (ih 0)
      · exact List.subset_cons_of_subset c (ih _)

theorem lineFeed_not_mem_target {line : Text} (whole : '\n' ∉ line) :
    '\n' ∉ (read line).target := by
  unfold read
  split
  · rename_i left rhs others sides
    intro feed
    have of_left : '\n' ∈ left :=
      Text.trim_subset _ (withoutModifiers_subset _ _ (Text.upTo_subset _ _ feed))
    have of_fields : left ∈ Text.fields '=' line := sides ▸ List.mem_cons_self
    exact whole (Text.mem_of_mem_fields of_fields _ of_left).1
  · decide

end Line.Assignment

namespace Line.Header

theorem lineFeed_not_mem_nameAfter? {keyword : String} {line name : Text} (whole : '\n' ∉ line)
    (h : nameAfter? keyword line = some name) : '\n' ∉ name := by
  obtain ⟨⟨before, rest⟩, cut, rfl⟩ := Option.map_eq_some_iff.1 h
  intro feed
  have of_rest : '\n' ∈ rest := Text.trim_subset _ (Text.upTo_subset _ _ feed)
  rw [Text.cut?_eq_append cut] at whole
  exact whole (List.mem_append_right _ of_rest)

theorem lineFeed_not_mem_methodName? {line name : Text} (h : methodName? line = some name) :
    '\n' ∉ name := by
  unfold methodName? at h
  split at h
  · obtain ⟨word, found, rfl⟩ := Option.map_eq_some_iff.1 h
    have piece := (List.mem_filter.1 (List.mem_of_find?_eq_some found)).1
    intro feed
    -- a line feed is a blank, and a word has none
    have blank := (Text.mem_of_mem_splitOnP piece _ (Text.upTo_subset _ _ feed)).2
    revert blank
    decide
  · cases h

theorem lineFeed_not_mem_functionName {line : Text} (whole : '\n' ∉ line) :
    '\n' ∉ functionName line := by
  unfold functionName
  cases after_def : nameAfter? "def " line with
  | some name => exact lineFeed_not_mem_nameAfter? whole after_def
  | none =>
    cases after_function : nameAfter? "function " line with
    | some name => exact lineFeed_not_mem_nameAfter? whole after_function
    | none =>
      cases method : methodName? line with
      | some name => exact lineFeed_not_mem_methodName? method
      | none => decide

end Line.Header

/-! ## The lines of a step -/

/-- Every name in a step is the target of some line. -/
theorem Trace.forall_mem_names_stateAt {P : Text → Prop} {code : Text}
    (targets : ∀ item ∈ visited code, P (Line.Assignment.read item.2).target) (run : Run)
    (k : Nat) : ∀ name ∈ (stateAt run code k).environment.names, P name := by
  apply stateAt_related_visited run run fun s _ => ∀ name ∈ s.environment.names, P name
  case start => exact List.forall_mem_nil _
  case enter =>
    intro s _ edge lineNumber item visits names
    rw [Sweep.enter_environment]
    split
    · intro name mem
      rcases Dictionary.mem_names_insert.1 mem with rfl | old
      · exact targets item visits
      · exact names name old
    · exact names
  case leave =>
    intro s _ item _ names
    rw [Sweep.leave_environment]
    exact names

/-- No line feed is in what a listing shows of a step. -/
structure Step.HasNoLineFeed (step : Step) : Prop where
  description : '\n' ∉ step.description
  names : ∀ entry ∈ step.environment.entries, '\n' ∉ entry.1
  values : ∀ entry ∈ step.environment.entries, '\n' ∉ entry.2.display
  frames : ∀ frame ∈ step.frames, '\n' ∉ frame.functionName

theorem Trace.hasNoLineFeed_of_getElem? {run : Run} {code : Text} {language : Language} {k : Nat}
    {step : Step} (h : (synthesize run code language)[k]? = some step) : step.HasNoLineFeed := by
  constructor
  case description =>
    rcases step_cases h with ⟨item, found, rfl⟩ | ⟨-, -, rfl⟩
    · exact Line.lineFeed_not_mem_describe (lineFeed_not_mem_visited (List.mem_of_getElem? found))
    · show '\n' ∉ completion
      decide
  case names =>
    rw [(pictures_stateAt h).environment]
    intro entry mem
    have targets : ∀ item ∈ visited code, '\n' ∉ (Line.Assignment.read item.2).target :=
      fun item visits => Line.Assignment.lineFeed_not_mem_target (lineFeed_not_mem_visited visits)
    exact forall_mem_names_stateAt (P := ('\n' ∉ ·)) targets run k _ (List.mem_map_of_mem mem)
  case values =>
    intro entry mem
    exact ((isClean_of_getElem? h).environment entry mem).lineFeed_not_mem_display
  case frames =>
    intro frame mem
    obtain ⟨item, visits, opens⟩ := mem_frames h mem
    obtain ⟨-, opened⟩ := Option.ite_none_right_eq_some.1 opens
    cases opened
    exact Line.Header.lineFeed_not_mem_functionName (lineFeed_not_mem_visited visits)

namespace Step

theorem lineFeed_not_mem_ofNat (n : Nat) : '\n' ∉ Text.ofNat n := by
  intro feed
  cases Text.isDigit_of_mem_ofNat feed

theorem lineFeed_not_mem_place (step : Step) : '\n' ∉ step.place := by
  unfold place
  split
  · rw [List.mem_append, not_or]
    exact ⟨by decide, lineFeed_not_mem_ofNat _⟩
  · decide

theorem lineFeed_not_mem_lines {t line : Text} (h : line ∈ Text.lines t) : '\n' ∉ line := by
  have piece {part : Text} (hp : part ∈ t.splitOn '\n') : '\n' ∉ part :=
    fun feed => (Text.mem_of_mem_splitOn hp _ feed).2 rfl
  rcases List.mem_append.1 h with inner | last
  · obtain ⟨part, hp, rfl⟩ := List.mem_map.1 inner
    have whole := piece (List.dropLast_subset _ hp)
    unfold Text.dropCarriageReturn
    split
    · exact fun feed => whole (List.dropLast_subset _ feed)
    · exact whole
  · have of_last := (List.mem_filter.1 last).1
    exact piece (List.mem_of_getLast? (Option.mem_toList.1 of_last))

/-- What a listing shows of a step under its header. -/
structure Details (step : Step) (bindings stack : Option Text) (outputs : List Text) : Prop where
  bound : bindings.isSome ↔ step.environment.entries ≠ []
  bindings : ∀ line ∈ bindings, line = "    vars:  ".toList ++ Text.join ", ".toList
    (step.environment.entries.map fun (name, value) => name ++ " = ".toList ++ value.display)
  called : stack.isSome ↔ step.frames ≠ []
  stack : ∀ line ∈ stack,
    line = "    stack: ".toList ++ Text.join " > ".toList (step.frames.map (·.functionName))
  outputs : outputs = (step.output.toList.flatMap Text.lines).map ("    | ".toList ++ ·)

/-- One line about some items, if there are any. -/
theorem exists_toList_eq_ite {α : Type} (items : List α) (text : Text) :
    ∃ shown : Option Text, (if items.isEmpty then [] else [text]) = shown.toList ∧
      (shown.isSome ↔ items ≠ []) ∧ ∀ line ∈ shown, line = text := by
  cases items with
  | nil => exact ⟨none, rfl, by simp, fun _ mem => nomatch mem⟩
  | cons => exact ⟨some text, rfl, by simp, fun _ mem => (Option.some.inj mem).symm⟩

theorem exists_details (step : Step) : ∃ bindings stack outputs,
    step.listing = step.header :: (bindings.toList ++ stack.toList ++ outputs) ∧
      step.Details bindings stack outputs := by
  obtain ⟨bindings, bindings_eq, bound, bindings_text⟩ :=
    exists_toList_eq_ite step.environment.entries ("    vars:  ".toList ++ Text.join ", ".toList
      (step.environment.entries.map fun (name, value) => name ++ " = ".toList ++ value.display))
  obtain ⟨stack, stack_eq, called, stack_text⟩ :=
    exists_toList_eq_ite step.frames
      ("    stack: ".toList ++ Text.join " > ".toList (step.frames.map (·.functionName)))
  refine ⟨bindings, stack, step.outputLines, ?_, bound, bindings_text, called, stack_text, ?_⟩
  · rw [← bindings_eq, ← stack_eq]
    rfl
  · unfold outputLines
    cases step.output with
    | none => rfl
    | some output => rw [Option.toList_some, List.flatMap_singleton]

/-- Each line of a step's listing is one line. -/
theorem HasNoLineFeed.listing {step : Step} (h : step.HasNoLineFeed) :
    ∀ line ∈ step.listing, '\n' ∉ line := by
  have header : '\n' ∉ step.header := by
    simp only [Step.header, List.mem_append, not_or]
    exact ⟨⟨⟨⟨⟨by decide, lineFeed_not_mem_ofNat _⟩, by decide⟩, step.lineFeed_not_mem_place⟩,
      by decide⟩, h.description⟩
  obtain ⟨bindings, stack, outputs, listing_eq, details⟩ := step.exists_details
  rw [listing_eq, List.forall_mem_cons, List.forall_mem_append, List.forall_mem_append]
  refine ⟨header, ⟨?_, ?_⟩, ?_⟩
  · intro line mem
    rw [details.bindings line (Option.mem_toList.1 mem), List.mem_append, not_or]
    refine ⟨by decide, Text.not_mem_join (by decide) ?_⟩
    intro part part_mem
    obtain ⟨entry, he, rfl⟩ := List.mem_map.1 part_mem
    simp only [List.mem_append, not_or]
    exact ⟨⟨h.names entry he, by decide⟩, h.values entry he⟩
  · intro line mem
    rw [details.stack line (Option.mem_toList.1 mem), List.mem_append, not_or]
    exact ⟨by decide, Text.not_mem_join (by decide) (List.forall_mem_map.2 h.frames)⟩
  · rw [details.outputs]
    intro line mem
    obtain ⟨inner, of_outputs, rfl⟩ := List.mem_map.1 mem
    obtain ⟨output, -, of_output⟩ := List.mem_flatMap.1 of_outputs
    rw [List.mem_append, not_or]
    exact ⟨by decide, lineFeed_not_mem_lines of_output⟩

/-- Of the lines of a step only the header starts with a number sign. -/
theorem filter_listing (step : Step) :
    step.listing.filter (fun line => line.head? = some '#') = [step.header] := by
  have header : step.header.head? = some '#' := rfl
  obtain ⟨bindings, stack, outputs, listing_eq, details⟩ := step.exists_details
  have others : ∀ line ∈ bindings.toList ++ stack.toList ++ outputs, line.head? ≠ some '#' := by
    rw [List.forall_mem_append, List.forall_mem_append]
    refine ⟨⟨?_, ?_⟩, ?_⟩
    · intro line mem
      rw [details.bindings line (Option.mem_toList.1 mem)]
      exact ne_of_beq_false rfl
    · intro line mem
      rw [details.stack line (Option.mem_toList.1 mem)]
      exact ne_of_beq_false rfl
    · rw [details.outputs]
      exact List.forall_mem_map.2 fun line _ => ne_of_beq_false rfl
  rw [listing_eq, List.filter_cons_of_pos (p := fun line : Text => line.head? = some '#')
    (decide_eq_true header), List.filter_eq_nil_iff.2]
  intro line mem
  rw [decide_eq_true_eq]
  exact others line mem

end Step

/-! ## The whole listing -/

namespace Trace

theorem splitOn_listing {steps : Trace} (some_step : steps ≠ [])
    (h : ∀ step ∈ steps, step.HasNoLineFeed) :
    (listing steps).splitOn '\n' = steps.flatMap Step.listing := by
  apply List.splitOn_intercalate
  · intro line mem
    obtain ⟨step, hs, listed⟩ := List.mem_flatMap.1 mem
    exact (h step hs).listing line listed
  · obtain ⟨step, rest, rfl⟩ := List.exists_cons_of_ne_nil some_step
    exact List.cons_ne_nil _ _

theorem filter_flatMap_listing (steps : Trace) :
    (steps.flatMap Step.listing).filter (fun line => line.head? = some '#') =
      steps.map Step.header := by
  induction steps with
  | nil => rfl
  | cons step steps ih =>
    rw [List.flatMap_cons, List.filter_append, Step.filter_listing, ih]
    rfl

/-- **A listing cannot be forged.**  The lines of a listing are those of the steps, in their
order: the header with the number, the line and the description of the step, or that of
completion at the end; a line for the variables exactly if there are some; a line for the
stack exactly if there are frames; and a line for each line of output.  So the lines that
start with a number sign are the headers, one for each step, whatever the snippet has in it. -/
theorem synthesize_listing (run : Run) (code : Text) (language : Language)
    (h : HasSignificantLine code) :
    let steps := synthesize run code language
    let lines := (listing steps).splitOn '\n'
    lines = steps.flatMap Step.listing ∧
    lines.filter (fun line => line.head? = some '#') = steps.map Step.header ∧
    ∀ k step, steps[k]? = some step →
      (k + 1 < steps.length → ∃ n, step.highlight = some n ∧ step.header =
        "#".toList ++ Text.ofNat (k + 1) ++ " [line ".toList ++ Text.ofNat n ++ "] ".toList ++
          step.description) ∧
      (k + 1 = steps.length → step.header =
        "#".toList ++ Text.ofNat (k + 1) ++ " [end] Execution completed".toList) ∧
      ∃ bindings stack outputs, step.Details bindings stack outputs ∧
        step.listing = step.header :: (bindings.toList ++ stack.toList ++ outputs) := by
  intro steps lines
  have some_line := visited_ne_nil_iff.2 h
  have length_eq : steps.length = (visited code).length + 1 := length_synthesize some_line
  have some_step : steps ≠ [] := List.ne_nil_of_length_pos (by omega)
  have whole : lines = steps.flatMap Step.listing := by
    apply splitOn_listing some_step
    intro step mem
    obtain ⟨k, found⟩ := List.mem_iff_getElem?.1 mem
    exact hasNoLineFeed_of_getElem? found
  refine ⟨whole, ?_, ?_⟩
  · rw [whole]
    exact filter_flatMap_listing steps
  · intro k step found
    refine ⟨?_, ?_, ?_⟩
    · intro early
      rcases step_cases found with ⟨item, -, rfl⟩ | ⟨last, -, -⟩
      · refine ⟨item.1 + 1, rfl, ?_⟩
        simp only [Step.header, Step.place, Sweep.step, List.append_assoc]
        rfl
      · omega
    · intro last
      rcases step_cases found with ⟨item, visits, -⟩ | ⟨-, -, rfl⟩
      · have inside := (List.getElem?_eq_some_iff.1 visits).1
        omega
      · simp only [Step.header, Step.place, Sweep.completionStep, List.append_assoc]
        rfl
    · obtain ⟨bindings, stack, outputs, listing_eq, details⟩ := step.exists_details
      exact ⟨bindings, stack, outputs, details, listing_eq⟩

/-- A text, a name and a preview that look like headers are lines of no step. -/
theorem synthesize_listing_hostile :
    let code := "x = '#1 [end] Execution completed'\r\n#2 [line 1]\nprint('\u2028#3')".toList
    let steps := synthesize ⟨[], fun _ => 0, 0⟩ code .python
    HasSignificantLine code ∧ steps.length = 3 ∧
      ((listing steps).splitOn '\n').filter (fun line => line.head? = some '#') =
        ["#1 [line 1] Assigning value to variable", "#2 [line 3] Printing output",
          "#3 [end] Execution completed"].map String.toList := by
  intro code steps
  have significant : HasSignificantLine code := visited_ne_nil_iff.1 (by decide)
  have headers := (synthesize_listing ⟨[], fun _ => 0, 0⟩ code .python significant).2.1
  refine ⟨significant, by decide, headers.trans ?_⟩
  decide

end Trace
end Walkthrough
