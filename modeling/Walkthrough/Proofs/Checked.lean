import Walkthrough.Proofs.Text.Search
import Walkthrough.Service

/-!
# Nothing is broken off

Every position at which a text is cut comes from a search in that text, and every index from
a comparison with a length.  So each checked part of a synthesis has the value of its
unchecked form, whatever the texts, and the whole of it too: `Checked.synthesize_eq`.  The
guards around the operations on a snippet have nothing to do (`Snippet.visualize_eq`).
-/

namespace Walkthrough

/-! ## Positions of characters -/

namespace Text

theorem byteLength_singleton_of_ascii {c : Char} (h : c.utf8Size = 1) : byteLength [c] = 1 := by
  rw [byteLength, byteLength, h]

theorem find?_singleton (c : Char) (before after : Text) (first : c ∉ before) :
    find? [c] (before ++ c :: after) = some (byteLength before) := by
  rw [find?, cut?_singleton _ _ first, Option.map_some]

theorem find?_singleton_eq_none_iff {c : Char} {t : Text} : find? [c] t = none ↔ c ∉ t := by
  rw [find?, Option.map_eq_none_iff, cut?_singleton_eq_none_iff]

theorem byteLength_reverse (t : Text) : byteLength t.reverse = byteLength t := by
  induction t with
  | nil => rfl
  | cons c t ih =>
    rw [List.reverse_cons, byteLength_append, ih, byteLength, byteLength, byteLength,
      Nat.add_comm, Nat.add_zero]

theorem findLast?_singleton (c : Char) (before after : Text) (last : c ∉ after) :
    findLast? c (before ++ c :: after) = some (byteLength before) := by
  have reversed : (before ++ c :: after).reverse = after.reverse ++ c :: before.reverse := by simp
  rw [findLast?, reversed, cut?_singleton _ _ (List.mem_reverse.not.2 last), Option.map_some]
  exact congrArg some (byteLength_reverse before)

theorem findLast?_eq_none_iff {c : Char} {t : Text} : findLast? c t = none ↔ c ∉ t := by
  rw [findLast?, Option.map_eq_none_iff, cut?_singleton_eq_none_iff, List.mem_reverse]

theorem not_byteLength_le (c : Char) (before inner : Text) :
    ¬ byteLength (before ++ c :: inner) ≤ byteLength before := by
  have positive := c.utf8Size_pos
  rw [byteLength_append, byteLength]
  omega

/-- A slice from behind a character up to a later position. -/
theorem slice_behind {c : Char} (ascii : c.utf8Size = 1) (before inner after : Text) :
    slice (before ++ c :: (inner ++ after)) (byteLength before + 1)
      (byteLength (before ++ c :: inner)) = .ok inner := by
  have start : byteLength before + 1 = byteLength (before ++ [c]) := by
    rw [byteLength_append, byteLength_singleton_of_ascii ascii]
  have whole : before ++ c :: (inner ++ after) = before ++ [c] ++ inner ++ after := by simp
  have stop : before ++ c :: inner = before ++ [c] ++ inner := by simp
  rw [start, whole, stop, slice_append]

end Text

namespace Checked

open Line Line.Header

/-! ## Lines -/

theorem nameAfter?_eq (keyword : String) (line : Text) :
    nameAfter? keyword line = .ok (Header.nameAfter? keyword line) := by
  unfold nameAfter? Header.nameAfter? Text.find?
  cases cut : Text.cut? keyword.toList line with
  | none => rfl
  | some halves =>
    obtain ⟨before, rest⟩ := halves
    obtain rfl := Text.cut?_eq_append cut
    simp only [Option.map_some, ← Text.byteLength_append, Text.sliceFrom_append]
    rfl

theorem functionName_eq (line : Text) : functionName line = .ok (Header.functionName line) := by
  unfold functionName Header.functionName
  rw [nameAfter?_eq, nameAfter?_eq]
  cases Header.nameAfter? "def " line with
  | some name => rfl
  | none => cases Header.nameAfter? "function " line <;> rfl

theorem parameterText?_eq (line : Text) :
    parameterText? line = .ok (Header.parameterText? line) := by
  unfold parameterText? Header.parameterText?
  cases cut : Text.cut? ['('] line with
  | none =>
    rw [Text.find?, cut]
    rfl
  | some halves =>
    obtain ⟨before, after⟩ := halves
    have unopened := Text.not_mem_of_cut?_singleton cut
    obtain rfl := Text.cut?_eq_append cut
    simp only [List.append_assoc, List.singleton_append, Text.find?_singleton _ _ _ unopened,
      List.contains_iff_mem]
    by_cases early : ')' ∈ before
    · -- the first closing parenthesis stands before the opening one
      obtain ⟨start, middle, rfl, first⟩ := List.eq_append_cons_of_mem early
      rw [List.append_assoc, List.cons_append, Text.find?_singleton _ _ _ first, if_pos early]
      exact if_pos (by rw [Text.byteLength_append]; exact Nat.le_add_right _ _)
    · rw [if_neg early]
      by_cases closed : ')' ∈ after
      · have ascii : '('.utf8Size = 1 := by decide
        obtain ⟨inner, rest, rfl, first⟩ := List.eq_append_cons_of_mem closed
        have unclosed : ')' ∉ before ++ '(' :: inner := by simp [early, first]
        have found := Text.find?_singleton ')' (before ++ '(' :: inner) rest unclosed
        rw [List.append_assoc, List.cons_append] at found
        rw [found, Text.cut?_singleton _ _ first]
        simp only [Text.not_byteLength_le, if_false, Text.slice_behind ascii]
        rfl
      · have unclosed : ')' ∉ before ++ '(' :: after := by simp [early, closed]
        rw [Text.find?_singleton_eq_none_iff.2 unclosed,
          Text.cut?_singleton_eq_none_iff.2 closed]
        rfl

theorem header_eq (line : Text) : header line = .ok (Header.read line) := by
  unfold header Header.read parameterNames
  rw [functionName_eq, parameterText?_eq]
  cases Header.parameterText? line <;> rfl

theorem assignment_eq (line : Text) : assignment line = .ok (.read line) := by
  unfold assignment Assignment.read
  cases Text.fields '=' line with
  | nil => rfl
  | cons left rest =>
    cases rest with
    | nil => rfl
    | cons rhs rest =>
      rw [if_neg (by simp)]
      rfl

/-! ## Values -/

theorem elements?_eq (t : Text) : elements? t = .ok (Value.readList? t) := by
  unfold elements? Value.readList?
  cases cut : Text.cut? ['['] t with
  | none =>
    rw [Text.find?, cut]
    rfl
  | some halves =>
    obtain ⟨before, after⟩ := halves
    have unopened := Text.not_mem_of_cut?_singleton cut
    obtain rfl := Text.cut?_eq_append cut
    simp only [List.append_assoc, List.singleton_append, Text.find?_singleton _ _ _ unopened]
    cases closes : Text.cut? [']'] after.reverse with
    | none =>
      have unclosed : ']' ∉ after := by
        rwa [Text.cut?_singleton_eq_none_iff, List.mem_reverse] at closes
      by_cases early : ']' ∈ before
      · -- the last closing bracket stands before the first opening one
        obtain ⟨start, middle, rfl, last⟩ := Text.exists_last early
        have behind : ']' ∉ middle ++ '[' :: after := by simp [last, unclosed]
        rw [List.append_assoc, List.cons_append, Text.findLast?_singleton _ _ _ behind]
        exact if_pos (by rw [Text.byteLength_append]; exact Nat.le_add_right _ _)
      · have nowhere : ']' ∉ before ++ '[' :: after := by simp [early, unclosed]
        rw [Text.findLast?_eq_none_iff.2 nowhere]
        rfl
    | some halves =>
      obtain ⟨reversed, content⟩ := halves
      have last := Text.not_mem_of_cut?_singleton closes
      have split : after = content.reverse ++ ']' :: reversed.reverse := by
        rw [← List.reverse_reverse after, Text.cut?_eq_append closes]
        simp
      have ascii : '['.utf8Size = 1 := by decide
      have found := Text.findLast?_singleton ']' (before ++ '[' :: content.reverse)
        reversed.reverse (List.mem_reverse.not.2 last)
      rw [List.append_assoc, List.cons_append, ← split] at found
      rw [found, split]
      simp only [Text.not_byteLength_le, if_false, Text.slice_behind ascii]
      rfl

theorem inferNormalized_eq (t : Text) (environment : Environment) :
    inferNormalized t environment = .ok (Value.inferNormalized t environment) := by
  unfold inferNormalized Value.inferNormalized
  cases Value.readNumber? t with
  | some number => rfl
  | none =>
    simp only
    split
    · rfl
    · by_cases opens : (t.contains '[' || t.contains '\x7b') = true
      · rw [if_pos opens, if_pos opens, elements?_eq]
        cases Value.readList? t <;> rfl
      · rw [if_neg opens, if_neg opens]
        rfl

theorem valueOf_eq (environment : Environment) (rhs : Option Text) :
    valueOf environment rhs = .ok (Sweep.valueOf environment rhs) := by
  cases rhs with
  | none => rfl
  | some rhs => exact inferNormalized_eq _ environment

/-! ## Edges -/

theorem edgeInto?_eq (lines : List Text) (index : Nat) :
    edgeInto? lines index = .ok (Edge.into? lines index) := by
  unfold edgeInto? Edge.into?
  cases index with
  | zero => rfl
  | succ before =>
    by_cases inside : before + 1 < lines.length
    · have current := List.getElem?_eq_getElem inside
      have previous := List.getElem?_eq_getElem (Nat.lt_of_succ_lt inside)
      rw [if_neg (by omega), entryAt_eq_ok current, Nat.add_sub_cancel, entryAt_eq_ok previous]
      simp only [current, previous]
      rfl
    · have beyond : lines[before + 1]? = none := List.getElem?_eq_none (Nat.not_lt.1 inside)
      rw [if_pos (.inr (Nat.not_lt.1 inside))]
      cases previous : lines[before]? <;> simp only [previous, beyond] <;> rfl

/-! ## The sweep -/

theorem assign_eq (s : Sweep) (line : Text) : assign s line = .ok (s.assign line) := by
  unfold assign Sweep.assign
  rw [assignment_eq]
  split
  · simp only [bind, Except.bind, valueOf_eq]
    rfl
  · rfl

theorem define_eq (s : Sweep) (lineNumber : Nat) (line : Text) :
    define s lineNumber line = .ok (s.define lineNumber line) := by
  unfold define Sweep.define
  rw [header_eq]
  split <;> rfl

theorem enter_eq (lines : List Text) (number index : Nat) (s : Sweep) (line : Text) :
    enter lines number index s line =
      .ok (s.enter (Sweep.edgeInto lines number index) (index + 1) line) := by
  unfold enter Sweep.enter Sweep.edgeInto
  rw [define_eq, edgeInto?_eq]
  split <;> exact assign_eq _ line

theorem run_eq (lines : List Text) (clock : Nat → Nat) (number : Nat) (s : Sweep)
    (items : List (Nat × Text)) :
    run lines clock number s items = .ok (s.run lines clock number items) := by
  induction items generalizing number s with
  | nil => rfl
  | cons item rest ih =>
    obtain ⟨index, line⟩ := item
    rw [run, enter_eq]
    simp only [bind, Except.bind, ih]
    rfl

/-- **Synthesis is never broken off.**  With all checks it gives the trace that it gives
without them. -/
theorem synthesize_eq (run : Run) (code : Text) (language : Language) :
    synthesize run code language = .ok (Trace.synthesize run code language) := by
  unfold synthesize Trace.synthesize Trace.sweep
  simp only [run_eq]
  obtain ⟨steps, last⟩ := (Sweep.start run.candidates).run (Trace.readLines code) run.clock 1
    (Trace.significantLines (Trace.readLines code))
  cases steps <;> rfl

end Checked

/-! ## The guarded operations -/

namespace Snippet

theorem execute_eq (run : Run) (s : Snippet) : s.execute run = .executed s.output run.elapsed :=
  rfl

theorem visualize_eq (run : Run) (s : Snippet) :
    s.visualize run = .visualized (s.trace run) (Trace.output (s.trace run)) run.elapsed := by
  rw [visualize, Checked.synthesize_eq]
  rfl

end Snippet
end Walkthrough
