import Mathlib.Data.List.DropRight
import Walkthrough.Proofs.Outline

/-!
# Which frames are on the stack

The stack of a step without running the stack.  A line that defines a function opens a
frame; the frame stays as long as the returns from its own line on are outnumbered or
met by the definitions after it (`CallStack.Stays`).

* `foldl_pass` splits a run over any lines in two: how many frames of the stack it
  starts with are taken away, `unmatched`, and which frames it leaves on top, `left`;
* `unmatched_add_le_iff` reads the number off the counts in every prefix, and
  `left_eq_staying` the frames off the balance;
* `frames_synthesize` is the stack of every step.
-/

namespace Walkthrough

/-- The frame that a line opens, if it defines a function. -/
def Frame.opened? (item : Nat × Text) : Option Frame :=
  if Line.isFunctionDefinition item.2 then some (.ofHeader (.read item.2) (item.1 + 1)) else none

namespace CallStack

/-- The frame of line `i` is still there when line `k` is entered: up to every line
between them, the returns from line `i` on are no more than the definitions after it. -/
def Stays (lines : List Text) (k i : Nat) : Prop :=
  ∀ j < k, i ≤ j →
    ((lines.take (j + 1)).drop i).countP Line.isReturn ≤
      ((lines.take (j + 1)).drop (i + 1)).countP Line.isFunctionDefinition

instance (lines : List Text) (k i : Nat) : Decidable (Stays lines k i) :=
  inferInstanceAs (Decidable (∀ j < k, i ≤ j → _))

/-- The frames of those among the given lines that stay until line `k` is entered. -/
def staying (lines : List Text) (k : Nat) (items : List (Nat × Text)) : CallStack :=
  items.zipIdx.filterMap fun (item, i) => if Stays lines k i then Frame.opened? item else none

/-- What a line does to the stack: it may open a frame, and then take the top away. -/
def pass (stack : CallStack) (item : Nat × Text) : CallStack :=
  if Line.isReturn item.2 then (stack ++ (Frame.opened? item).toList).pop
  else stack ++ (Frame.opened? item).toList

/-- The number of returns in a list of lines that find no frame of these lines. -/
def unmatched : List Text → Nat
  | [] => 0
  | line :: rest =>
    (unmatched rest + if Line.isReturn line then 1 else 0) -
      if Line.isFunctionDefinition line then 1 else 0

/-- The frames that a list of lines opens and leaves. -/
def left : List (Nat × Text) → CallStack
  | [] => []
  | item :: rest =>
    (if Line.isReturn item.2 = false ∧ unmatched (rest.map Prod.snd) = 0 then
      (Frame.opened? item).toList else []) ++ left rest

theorem rdrop_succ_eq_rdrop_pop (stack : CallStack) (n : Nat) :
    stack.rdrop (n + 1) = stack.pop.rdrop n := by
  rcases List.eq_nil_or_concat' stack with rfl | ⟨below, frame, rfl⟩
  · simp only [pop, List.dropLast_nil, List.rdrop_nil]
  · rw [List.rdrop_concat_succ, pop, List.dropLast_concat]

/-- A run takes frames off the stack that it starts with and puts its own on top. -/
theorem foldl_pass (stack : CallStack) (items : List (Nat × Text)) :
    items.foldl pass stack = stack.rdrop (unmatched (items.map Prod.snd)) ++ left items := by
  induction items generalizing stack with
  | nil => simp [unmatched, left]
  | cons item rest ih =>
    rw [List.foldl_cons, ih, List.map_cons, unmatched, left]
    -- a frame that the line opens and does not return from absorbs the first later return
    by_cases returns : Line.isReturn item.2 = true
    · by_cases defines : Line.isFunctionDefinition item.2 = true
      · simp [pass, Frame.opened?, pop, returns, defines]
      · simp [pass, Frame.opened?, returns, defines, rdrop_succ_eq_rdrop_pop]
    · by_cases defines : Line.isFunctionDefinition item.2 = true
      · cases found : unmatched (rest.map Prod.snd) with
        | zero => simp [pass, Frame.opened?, returns, defines]
        | succ n => simp [pass, Frame.opened?, returns, defines, List.rdrop_concat_succ]
      · simp [pass, Frame.opened?, returns, defines]

/-- How many returns are unmatched shows in the prefix with the greatest excess. -/
theorem unmatched_add_le_iff (lines : List Text) (r m : Nat) :
    unmatched lines + r ≤ m ↔
      ∀ j, (lines.take j).countP Line.isReturn + r ≤
        (lines.take j).countP Line.isFunctionDefinition + m := by
  -- `r` and `m` count the returns and definitions of the lines already passed
  induction lines generalizing r m with
  | nil => simp [unmatched]
  | cons line rest ih =>
    have next := ih (r + if Line.isReturn line then 1 else 0)
      (m + if Line.isFunctionDefinition line then 1 else 0)
    constructor
    · intro h j
      cases j with
      | zero =>
        simp only [List.take_zero, List.countP_nil]
        omega
      | succ j =>
        have counts := next.1 (by simp only [unmatched] at h; omega) j
        simp only [List.take_succ_cons, List.countP_cons]
        omega
    · intro h
      have now := h 0
      have later := next.2 fun j => by
        have counts := h (j + 1)
        simp only [List.take_succ_cons, List.countP_cons] at counts
        omega
      simp only [List.take_zero, List.countP_nil] at now
      simp only [unmatched]
      omega

theorem stays_self (lines : List Text) (k : Nat) : Stays lines k k := by
  intro j before after
  omega

theorem stays_take (lines : List Text) (k i : Nat) :
    Stays (lines.take k) k i ↔ Stays lines k i := by
  unfold Stays
  refine forall_congr' fun j => forall_congr' fun before => ?_
  rw [List.take_take, Nat.min_eq_left (by omega)]

theorem stays_cons_succ (line : Text) (lines : List Text) (k i : Nat) :
    Stays (line :: lines) (k + 1) (i + 1) ↔ Stays lines k i := by
  constructor
  · intro h j before after
    exact h (j + 1) (by omega) (by omega)
  · intro h j before after
    obtain ⟨j, rfl⟩ : ∃ m, j = m + 1 := ⟨j - 1, by omega⟩
    exact h j (by omega) (by omega)

/-- The first of some lines keeps its frame exactly if it does not return and every later
return finds a later frame. -/
theorem stays_cons_zero (line : Text) (lines : List Text) :
    Stays (line :: lines) (lines.length + 1) 0 ↔
      Line.isReturn line = false ∧ unmatched lines = 0 := by
  have balance := unmatched_add_le_iff lines (if Line.isReturn line then 1 else 0) 0
  have returns (j : Nat) : (((line :: lines).take (j + 1)).drop 0).countP Line.isReturn =
      (lines.take j).countP Line.isReturn + if Line.isReturn line then 1 else 0 := by
    rw [List.drop_zero, List.take_succ_cons, List.countP_cons]
  have definitions (j : Nat) : ((line :: lines).take (j + 1)).drop (0 + 1) = lines.take j := rfl
  have stays_iff : Stays (line :: lines) (lines.length + 1) 0 ↔
      unmatched lines + (if Line.isReturn line then 1 else 0) ≤ 0 := by
    rw [balance]
    constructor
    · intro h j
      by_cases inside : j ≤ lines.length
      · have now := h j (by omega) (by omega)
        rwa [returns, definitions] at now
      · have last := h lines.length (by omega) (by omega)
        rw [returns, definitions, List.take_length] at last
        rwa [List.take_of_length_le (by omega)]
    · intro h j _ _
      rw [returns, definitions]
      exact h j
  rw [stays_iff]
  cases Line.isReturn line <;> simp

/-- The frames that a list of lines leaves are those in balance. -/
theorem left_eq_staying (items : List (Nat × Text)) :
    left items = staying (items.map Prod.snd) items.length items := by
  induction items with
  | nil => rfl
  | cons item rest ih =>
    have first := stays_cons_zero item.2 (rest.map Prod.snd)
    rw [List.length_map] at first
    have others : staying ((item :: rest).map Prod.snd) (rest.length + 1) (item :: rest) =
        (if Stays (item.2 :: rest.map Prod.snd) (rest.length + 1) 0 then
          (Frame.opened? item).toList else []) ++ staying (rest.map Prod.snd) rest.length rest := by
      simp only [staying, List.zipIdx_cons', List.filterMap_cons, List.filterMap_map,
        List.map_cons, Function.comp_def, Prod.map, id, stays_cons_succ]
      by_cases stays : Stays (item.2 :: rest.map Prod.snd) (rest.length + 1) 0
      · cases Frame.opened? item <;> simp [stays]
      · simp [stays]
    rw [left, ih, List.length_cons, others]
    simp only [first]

end CallStack

namespace Trace

section
variable {run : Run} {code : Text} {language : Language} {k : Nat}

theorem stack_after (lines : List Text) (number : Nat) (s : Sweep) (items : List (Nat × Text)) :
    (s.after lines number items).stack = items.foldl CallStack.pass s.stack := by
  induction items generalizing number s with
  | nil => rfl
  | cons item rest ih =>
    rw [Sweep.after, ih, List.foldl_cons, Sweep.leave_stack, Sweep.shown, Sweep.enter_stack]
    simp only [CallStack.pass, Frame.opened?, CallStack.push]
    cases Line.isFunctionDefinition item.2 <;> simp

/-- The step of a line shows the frame that the line opens. -/
theorem stateAt_stack (run : Run) (code : Text) (k : Nat) :
    (stateAt run code k).stack =
      (stateBefore run code k).stack ++ ((visited code)[k]?.bind Frame.opened?).toList := by
  cases h : (visited code)[k]? with
  | none =>
    rw [stateAt_of_none h]
    exact (List.append_nil _).symm
  | some item =>
    rw [stateAt_eq_enter h, Sweep.enter_stack, Option.bind_some, Frame.opened?]
    split
    · rfl
    · exact (List.append_nil _).symm

theorem stack_stateBefore (hk : k ≤ (visited code).length) :
    (stateBefore run code k).stack =
      CallStack.staying ((visited code).map Prod.snd) k ((visited code).take k) := by
  have length_eq : ((visited code).take k).length = k := List.length_take_of_le hk
  rw [stateBefore, stack_after, CallStack.foldl_pass, CallStack.left_eq_staying, length_eq,
    List.map_take]
  simp only [CallStack.staying, CallStack.stays_take, Sweep.start, List.rdrop_nil, List.nil_append]

theorem staying_take_succ {item : Nat × Text} (h : (visited code)[k]? = some item) :
    CallStack.staying ((visited code).map Prod.snd) k ((visited code).take (k + 1)) =
      CallStack.staying ((visited code).map Prod.snd) k ((visited code).take k) ++
        (Frame.opened? item).toList := by
  obtain ⟨hk, rfl⟩ := List.getElem?_eq_some_iff.1 h
  have length_eq : ((visited code).take k).length = k := List.length_take_of_le (by omega)
  rw [← List.take_append_getElem hk, CallStack.staying, List.zipIdx_append, List.filterMap_append,
    length_eq, Nat.zero_add]
  simp only [List.zipIdx_singleton, List.filterMap_cons, CallStack.stays_self, if_true]
  cases Frame.opened? (visited code)[k] <;> rfl

theorem stack_stateAt (hk : k ≤ (visited code).length) :
    (stateAt run code k).stack =
      CallStack.staying ((visited code).map Prod.snd) k ((visited code).take (k + 1)) := by
  rw [stateAt_stack, stack_stateBefore hk]
  cases h : (visited code)[k]? with
  | none =>
    have ended := List.getElem?_eq_none_iff.1 h
    rw [List.take_of_length_le ended, List.take_of_length_le (by omega)]
    exact List.append_nil _
  | some item => exact (staying_take_succ h).symm

theorem staying_increasing (lines : List Text) (k : Nat) {items : List (Nat × Text)}
    (h : items.Pairwise (·.1 < ·.1)) :
    (CallStack.staying lines k items).Pairwise (·.lineNumber < ·.lineNumber) := by
  have numbered : items.zipIdx.Pairwise (·.1.1 < ·.1.1) := by
    rw [← List.zipIdx_map_fst 0 items, List.pairwise_map] at h
    exact h
  have line_of {item : Nat × Text} {i : Nat} {frame : Frame}
      (opens : (if CallStack.Stays lines k i then Frame.opened? item else none) = some frame) :
      frame.lineNumber = item.1 + 1 := by
    unfold Frame.opened? at opens
    split at opens
    · split at opens
      · cases opens
        rfl
      · cases opens
    · cases opens
  refine List.pairwise_filterMap.2 (numbered.imp ?_)
  intro a b less frame opens other others
  rw [line_of opens, line_of others]
  omega

/-- Every frame of a step was opened by a line before it. -/
theorem mem_frames {step : Step} (h : (synthesize run code language)[k]? = some step)
    {frame : Frame} (hf : frame ∈ step.frames) : ∃ item ∈ visited code, Frame.opened? item = some frame := by
  have hk : k ≤ (visited code).length := by
    rcases step_cases h with ⟨item, found, -⟩ | ⟨last, -, -⟩
    · exact Nat.le_of_lt (List.getElem?_eq_some_iff.1 found).1
    · exact Nat.le_of_eq last
  rw [(pictures_stateAt h).frames, stack_stateAt hk] at hf
  obtain ⟨⟨item, i⟩, member, opens⟩ := List.mem_filterMap.1 hf
  refine ⟨item, List.mem_of_mem_take (List.fst_mem_of_mem_zipIdx member), ?_⟩
  exact (Option.ite_none_right_eq_some.1 opens).2

end

/-- **The stack of every step.** Its frames are those of the lines up to it whose frames
stay, from the bottom up and so in the order of the lines.  A line that returns still
shows its own frame; after its step the top is gone, if there was one. -/
theorem frames_synthesize (run : Run) (code : Text) (language : Language) (k : Nat) (step : Step)
    (h : (synthesize run code language)[k]? = some step) :
    step.frames =
      CallStack.staying ((visited code).map Prod.snd) k ((visited code).take (k + 1)) ∧
    step.frames.Pairwise (·.lineNumber < ·.lineNumber) ∧
    ∀ next, (synthesize run code language)[k + 1]? = some next →
      ∃ item, (visited code)[k]? = some item ∧
        next.frames =
          (if Line.isReturn item.2 then step.frames.dropLast else step.frames) ++
            ((visited code)[k + 1]?.bind Frame.opened?).toList := by
  have shows := (pictures_stateAt h).frames
  have hk : k ≤ (visited code).length := by
    rcases step_cases h with ⟨item, found, -⟩ | ⟨last, -, -⟩
    · exact Nat.le_of_lt (List.getElem?_eq_some_iff.1 found).1
    · exact Nat.le_of_eq last
  have frames_eq := shows.trans (stack_stateAt hk)
  refine ⟨frames_eq, ?_, ?_⟩
  · rw [frames_eq]
    exact staying_increasing _ _ ((significantLines_increasing _).take)
  · intro next hnext
    have line : k < (visited code).length := by
      rcases step_cases hnext with ⟨item, found, -⟩ | ⟨last, -, -⟩
      · exact Nat.lt_of_succ_lt (List.getElem?_eq_some_iff.1 found).1
      · omega
    have found := List.getElem?_eq_getElem line
    refine ⟨_, found, ?_⟩
    rw [(pictures_stateAt hnext).frames, stateAt_stack, stateBefore_succ found, Sweep.leave_stack,
      shows]
    rfl

/-- After a return with nothing to take away, the frame of a line that defines and returns
stands on the frame before it and goes with its own step. -/
theorem frames_synthesize_nested :
    ∃ step next,
      (synthesize ⟨[], fun _ => 0, 0⟩ "return 0\ndef a(x):\ndef b(y): return y\nz".toList
        .python)[2]? = some step ∧
      (synthesize ⟨[], fun _ => 0, 0⟩ "return 0\ndef a(x):\ndef b(y): return y\nz".toList
        .python)[3]? = some next ∧
      step.frames.map (·.lineNumber) = [2, 3] ∧ next.frames.map (·.lineNumber) = [2] := by
  have third := List.getElem?_eq_getElem (l := synthesize ⟨[], fun _ => 0, 0⟩
    "return 0\ndef a(x):\ndef b(y): return y\nz".toList .python) (i := 2) (by decide)
  have fourth := List.getElem?_eq_getElem (l := synthesize ⟨[], fun _ => 0, 0⟩
    "return 0\ndef a(x):\ndef b(y): return y\nz".toList .python) (i := 3) (by decide)
  refine ⟨_, _, third, fourth, ?_, ?_⟩
  · rw [(frames_synthesize _ _ _ _ _ third).1]
    decide
  · rw [(frames_synthesize _ _ _ _ _ fourth).1]
    decide

end Trace
end Walkthrough
