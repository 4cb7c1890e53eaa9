import Walkthrough.Proofs.Calls
import Walkthrough.Proofs.Checked
import Walkthrough.Proofs.Frames
import Walkthrough.Proofs.Json.Paths
import Walkthrough.Proofs.Rosters
import Walkthrough.Proofs.Text.ByteOrder

/-!
# The order of parameters

A frame holds its parameters in the order of the header, each name where it occurs first
(`Roster.names_ofList`).  The reply to a visualization has them in another order: all
objects in it have their members by increasing names.  `parameters_reply` says what that
leaves of the order of the header, and `parameters_reordered` is a header that loses it.
-/

namespace Walkthrough

theorem Frame.names_opened {item : Nat × Text} {frame : Frame} (h : opened? item = some frame) :
    frame.lineNumber = item.1 + 1 ∧
      frame.parameters.names = (Line.Header.parameterNames item.2).eraseDups := by
  unfold opened? at h
  split at h
  · cases h
    refine ⟨rfl, (Roster.names_ofList _).trans ?_⟩
    rw [List.map_map]
    exact congrArg List.eraseDups (List.map_id _)
  · cases h

/-! ## Where the parameters are in a reply -/

/-- From a trace to the parameters of a frame of a step. -/
def Trace.parametersPath (k i : Nat) : List Json.Key :=
  [.item k, .member "stackFrames".toList, .item i, .member "parameters".toList]

/-- From a reply to the parameters of a frame of a step. -/
def Reply.parametersPath (k i : Nat) : List Json.Key :=
  .member "data".toList :: .member "visualizationSteps".toList :: Trace.parametersPath k i

theorem Frame.at?_toJson (frame : Frame) :
    frame.toJson.at? [.member "parameters".toList] =
      some (Value.entriesToJson frame.parameters.entries) := by
  have distinct : ["functionName", "parameters", "localVariables", "returnValue",
    "lineNumber"].Nodup := by decide
  apply Json.at?_record
  · exact distinct
  · exact List.mem_of_getElem? (i := 1) rfl

theorem Step.at?_toJson (step : Step) (i : Nat) :
    step.toJson.at? [.member "stackFrames".toList, .item i, .member "parameters".toList] =
      step.frames[i]?.map fun frame => Value.entriesToJson frame.parameters.entries := by
  have distinct : ["stepNumber", "description", "variableStates", "lineHighlight", "output",
    "stackFrames", "memoryObjects", "controlFlow", "dataStructures", "timestamp"].Nodup := by
    decide
  calc step.toJson.at? [.member "stackFrames".toList, .item i, .member "parameters".toList]
    _ = step.frames.toJson.at? [.item i, .member "parameters".toList] := by
      apply Json.at?_record
      · exact distinct
      · exact List.mem_of_getElem? (i := 5) rfl
    _ = step.frames[i]?.bind fun frame => frame.toJson.at? [.member "parameters".toList] :=
      Json.at?_items Frame.toJson step.frames i _
    _ = step.frames[i]?.map fun frame => Value.entriesToJson frame.parameters.entries := by
      simp only [Frame.at?_toJson, Option.map_eq_bind, Function.comp_def]

theorem Trace.at?_toJson (steps : Trace) (k i : Nat) :
    steps.toJson.at? (parametersPath k i) =
      (steps[k]?.bind fun step => step.frames[i]?).map fun frame =>
        Value.entriesToJson frame.parameters.entries := by
  rw [toJson, parametersPath, Json.at?_items]
  simp only [Step.at?_toJson, Option.map_bind]
  rfl

theorem Response.at?_toJson (steps : Trace) (output : Text) (elapsed : Nat)
    (path : List Json.Key) :
    (visualized steps output elapsed).toJson.at? (.member "visualizationSteps".toList :: path) =
      steps.toJson.at? path := by
  have distinct :
      ["success", "output", "error", "visualizationSteps", "executionTime"].Nodup := by decide
  apply Json.at?_record
  · exact distinct
  · exact List.mem_of_getElem? (i := 3) rfl

theorem Reply.at?_toJson (response : Response) (path : List Json.Key) :
    (ofResponse response).toJson.at? (.member "data".toList :: path) =
      response.toJson.at? path := by
  have distinct : ["status", "data"].Nodup := by decide
  unfold ofResponse
  split
  all_goals apply Json.at?_record
  all_goals first | exact distinct | exact List.mem_of_getElem? (i := 1) rfl

theorem Snippet.at?_reply (run : Run) (snippet : Snippet) (k i : Nat) :
    (Reply.ofResponse (snippet.visualize run)).toJson.sorted.at? (Reply.parametersPath k i) =
      ((snippet.trace run)[k]?.bind fun step => step.frames[i]?).map fun frame =>
        (Value.entriesToJson frame.parameters.entries).sorted := by
  rw [Json.at?_sorted, Reply.parametersPath, Reply.at?_toJson, Snippet.visualize_eq,
    Response.at?_toJson, Trace.at?_toJson, Option.map_map]
  rfl

/-! ## What becomes of their order -/

theorem Frame.names_sorted (frame : Frame) :
    let wire := (Value.entriesToJson frame.parameters.entries).sorted.names
    wire.Perm frame.parameters.names ∧ wire.Pairwise Text.BytesPrecede ∧
      (wire = frame.parameters.names ↔ frame.parameters.names.Pairwise Text.BytesPrecede) := by
  have names : (Value.entriesToJson frame.parameters.entries).names = frame.parameters.names := by
    rw [Value.entriesToJson, Json.names, List.map_map]
    rfl
  have distinct : (Value.entriesToJson frame.parameters.entries).names.Nodup := by
    rw [names]
    exact frame.parameters.distinct
  have increasing := Json.increasing_names_sorted (Value.entriesToJson frame.parameters.entries)
  have perm := Json.names_sorted_perm distinct
  have kept := Json.names_sorted_eq_iff distinct
  simp only [Text.precedes_iff_bytes, names] at increasing perm kept
  exact ⟨perm, increasing, kept⟩

theorem Command.reply_visualize (run : Run) {line : Text} {c : Command} {r : Request}
    {snippet : Snippet} (read : Command.read? line = some c)
    (visualize : c.name = "VISUALIZE".toList)
    (request : c.request = .ok r) (valid : r.validate = .ok snippet) :
    Command.reply run line = (Reply.ofResponse (snippet.visualize run)).toJson.sorted := by
  have answered : c.answer run = c.answerWith (Operation.visualize.respond run) :=
    Command.answer_operation visualize run
  have response : Request.visualize run r = snippet.visualize run := by
    rw [Request.visualize, valid]
  rw [Command.answerWith, request] at answered
  simp only [Command.reply, read, answered, Operation.respond, response]

/-- **The order of parameters in a reply.**  A frame names its parameters in the order in
which the header of its function does, each where it occurs first.  The reply to a
visualization has the same names for each frame, but by increasing bytes: they keep the
order of the frame if that is the one it has, and lose it otherwise. -/
theorem Command.parameters_reply (run : Run) {line : Text} {c : Command} {r : Request}
    {snippet : Snippet} (read : Command.read? line = some c)
    (visualize : c.name = "VISUALIZE".toList)
    (request : c.request = .ok r) (valid : r.validate = .ok snippet) (k i : Nat) :
    (((snippet.trace run)[k]?.bind fun step => step.frames[i]?) = none →
      (Command.reply run line).at? (Reply.parametersPath k i) = none) ∧
    ∀ frame, ((snippet.trace run)[k]?.bind fun step => step.frames[i]?) = some frame →
      (∃ index header, frame.lineNumber = index + 1 ∧
        (index, header) ∈ Trace.visited snippet.code ∧
        frame.parameters.names = (Line.Header.parameterNames header).eraseDups) ∧
      ∃ parameters, (Command.reply run line).at? (Reply.parametersPath k i) = some parameters ∧
        parameters.names.Perm frame.parameters.names ∧
        parameters.names.Pairwise Text.BytesPrecede ∧
        (parameters.names = frame.parameters.names ↔
          frame.parameters.names.Pairwise Text.BytesPrecede) := by
  have place := snippet.at?_reply run k i
  rw [← reply_visualize run read visualize request valid] at place
  constructor
  · intro none
    rw [place, none, Option.map_none]
  · intro frame found
    rw [found, Option.map_some] at place
    refine ⟨?_, _, place, frame.names_sorted⟩
    obtain ⟨step, at_k, at_i⟩ := Option.bind_eq_some_iff.1 found
    obtain ⟨⟨index, header⟩, visited, opens⟩ :=
      Trace.mem_frames at_k (List.mem_of_getElem? at_i)
    obtain ⟨number, names⟩ := Frame.names_opened opens
    exact ⟨index, header, number, visited, names⟩

/-- Parameters that a header has by increasing names stay as they are. -/
theorem Command.parameters_reply_increasing :
    ∃ frame parameters,
      (Snippet.trace ⟨[], fun _ => 0, 0⟩ ⟨"def f(x, y):".toList, .python⟩)[0]?.bind
        (fun step => step.frames[0]?) = some frame ∧
      (Command.reply ⟨[], fun _ => 0, 0⟩ (Call.text
        ⟨.visualize, ⟨some "def f(x, y):".toList, some "python".toList⟩⟩)).at?
          (Reply.parametersPath 0 0) = some parameters ∧
      parameters.names = frame.parameters.names := by
  let call : Call := ⟨.visualize, ⟨some "def f(x, y):".toList, some "python".toList⟩⟩
  have increasing : (Line.Header.read "def f(x, y):".toList).parameters.names.Pairwise
      (Text.precedes · ·) := by decide
  obtain ⟨-, parameters, found, -, -, kept⟩ :=
    (parameters_reply ⟨[], fun _ => 0, 0⟩ call.read?_text rfl call.request_command rfl 0 0).2
      (.ofHeader (.read "def f(x, y):".toList) 1) rfl
  exact ⟨_, parameters, rfl, found, kept.2 (increasing.imp Text.bytesPrecede_of_precedes)⟩

/-- The parameters `z` and `a` change places. -/
theorem Command.parameters_reordered :
    ∃ frame parameters,
      (Snippet.trace ⟨[], fun _ => 0, 0⟩ ⟨"def f(z, a):".toList, .python⟩)[0]?.bind
        (fun step => step.frames[0]?) = some frame ∧
      (Command.reply ⟨[], fun _ => 0, 0⟩ (Call.text
        ⟨.visualize, ⟨some "def f(z, a):".toList, some "python".toList⟩⟩)).at?
          (Reply.parametersPath 0 0) = some parameters ∧
      frame.parameters.names = ["z".toList, "a".toList] ∧
      parameters.names = ["a".toList, "z".toList] := by
  let frame : Frame := .ofHeader (.read "def f(z, a):".toList) 1
  refine ⟨frame, (Value.entriesToJson frame.parameters.entries).sorted, rfl, ?_, by decide, ?_⟩
  · rw [Call.reply_text]
    exact Snippet.at?_reply _ ⟨"def f(z, a):".toList, .python⟩ 0 0
  · decide

end Walkthrough
