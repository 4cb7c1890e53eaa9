import Walkthrough.Export
import Walkthrough.Proofs.Json.Reordering
import Walkthrough.Proofs.Json.Spacing
import Walkthrough.Proofs.Replies

/-!
# The encodings of a trace

A trace is written in three ways: indented and by itself, compact inside a response, and
compact inside a reply, where all names are in order.  Whatever the trace holds, these are
one document, up to the order of members in the reply: `Trace.encodings_agree`.  It rests
on the trace being well formed as a value (`Trace.wellFormed_toJson`), as the names in a
dictionary, in a roster and among the fields of a record are distinct.
-/

namespace Walkthrough

namespace Json

theorem flatMap_intercalate {α β : Type} (f : α → List β) (separator : List α)
    (parts : List (List α)) :
    (separator.intercalate parts).flatMap f =
      (separator.flatMap f).intercalate (parts.map fun part => part.flatMap f) := by
  induction parts with
  | nil => rfl
  | cons part rest ih =>
    cases rest with
    | nil => simp
    | cons next rest =>
      simp only [List.intercalate_cons_cons, List.flatMap_append, ih, List.map_cons]

/-- The compact text of an object. -/
theorem write_object (members : List (Text × Json)) :
    (object members).write = ['\x7b'] ++ Text.join [','] (members.map fun (name, value) =>
      (string name).write ++ [':'] ++ value.write) ++ ['\x7d'] := by
  simp only [write, tokens, memberTokens_eq_map, List.flatMap_append, List.flatMap_cons,
    List.flatMap_nil, List.append_nil, List.append_assoc, flatMap_intercalate, List.map_map,
    Function.comp_def, Text.join]
  rfl

theorem write_ofNat (n : Nat) : (ofNat n).write = Text.ofNat n := List.append_nil _

end Json

mutual
theorem Value.wellFormed_toJson : ∀ value : Value, value.toJson.WellFormed
  | .int n => (readable_ofInt 0 n).wellFormed
  | .double x => (Json.readable_ofDouble 0 x).wellFormed
  | .text t => .string t
  | .list items => .array (wellFormed_allToJson items)
  | .placeholder => .string placeholderText

theorem Value.wellFormed_allToJson : ∀ items : List Value, ∀ j ∈ allToJson items, j.WellFormed
  | [] => List.forall_mem_nil _
  | value :: rest => List.forall_mem_cons.2 ⟨wellFormed_toJson value, wellFormed_allToJson rest⟩
end

theorem Value.wellFormed_entriesToJson {entries : List (Text × Value)}
    (distinct : (entries.map Prod.fst).Nodup) : (entriesToJson entries).WellFormed := by
  refine .object ?_ (List.forall_mem_map.2 fun entry _ => wellFormed_toJson entry.2)
  rwa [List.map_map]

/-- A field that may lack a value. -/
theorem wellFormed_of_mem_map {α : Type} {f : α → Json} (h : ∀ x, (f x).WellFormed)
    (found : Option α) : ∀ value ∈ found.map f, value.WellFormed := by
  intro value mem
  obtain ⟨x, -, rfl⟩ := Option.map_eq_some_iff.1 mem
  exact h x

theorem wellFormed_map {α : Type} {f : α → Json} (h : ∀ x, (f x).WellFormed) (xs : List α) :
    (Json.array (xs.map f)).WellFormed :=
  .array (List.forall_mem_map.2 fun x _ => h x)

theorem Frame.wellFormed_toJson (frame : Frame) : frame.toJson.WellFormed := by
  refine Json.wellFormed_record (by simp) ?_
  simp only [List.forall_mem_cons, Option.mem_some_iff, forall_eq']
  exact ⟨.string _, Value.wellFormed_entriesToJson frame.parameters.distinct,
    Value.wellFormed_entriesToJson frame.localVariables.names_nodup,
    wellFormed_of_mem_map Value.wellFormed_toJson _, Json.wellFormed_ofNat _,
    List.forall_mem_nil _⟩

theorem MemoryObject.wellFormed_toJson (object : MemoryObject) : object.toJson.WellFormed := by
  refine Json.wellFormed_record (by simp) ?_
  simp only [List.forall_mem_cons, Option.mem_some_iff, forall_eq']
  exact ⟨.string _, .string _, object.value.wellFormed_toJson, Json.wellFormed_strings _,
    List.forall_mem_nil _⟩

theorem Edge.wellFormed_toJson (edge : Edge) : edge.toJson.WellFormed := by
  refine Json.wellFormed_record (by simp) ?_
  simp only [List.forall_mem_cons, Option.mem_some_iff, forall_eq']
  exact ⟨Json.wellFormed_ofNat _, Json.wellFormed_ofNat _, .string _,
    wellFormed_of_mem_map .bool _, List.forall_mem_nil _⟩

theorem DataStructure.wellFormed_toJson (detected : DataStructure) :
    detected.toJson.WellFormed := by
  refine Json.wellFormed_record (by simp) ?_
  simp only [List.forall_mem_cons, Option.mem_some_iff, forall_eq']
  exact ⟨.string _, detected.data.wellFormed_toJson, Json.wellFormed_strings _,
    List.forall_mem_nil _⟩

theorem Step.wellFormed_toJson (step : Step) : step.toJson.WellFormed := by
  refine Json.wellFormed_record (by simp) ?_
  simp only [List.forall_mem_cons, Option.mem_some_iff, forall_eq']
  exact ⟨Json.wellFormed_ofNat _, .string _,
    Value.wellFormed_entriesToJson step.environment.names_nodup,
    wellFormed_of_mem_map Json.wellFormed_ofNat _, wellFormed_of_mem_map .string _,
    wellFormed_map Frame.wellFormed_toJson _, wellFormed_map MemoryObject.wellFormed_toJson _,
    wellFormed_map Edge.wellFormed_toJson _, wellFormed_map DataStructure.wellFormed_toJson _,
    Json.wellFormed_ofNat _, List.forall_mem_nil _⟩

theorem Trace.wellFormed_toJson (steps : Trace) : steps.toJson.WellFormed :=
  wellFormed_map Step.wellFormed_toJson steps

theorem Response.wellFormed_toJson (response : Response) : response.toJson.WellFormed := by
  refine Json.wellFormed_record (by simp) ?_
  simp only [List.forall_mem_cons, Option.mem_some_iff, forall_eq']
  exact ⟨.bool _, wellFormed_of_mem_map .string _, wellFormed_of_mem_map .string _,
    wellFormed_of_mem_map Trace.wellFormed_toJson _, wellFormed_of_mem_map Json.wellFormed_ofNat _,
    List.forall_mem_nil _⟩

theorem Reply.wellFormed_ofResponse (response : Response) :
    (ofResponse response).toJson.WellFormed := by
  have fields (status : String) : Json.WellFormed
      (.record [("status", some (.string status.toList)), ("data", some response.toJson)]) := by
    refine Json.wellFormed_record (by simp) ?_
    simp only [List.forall_mem_cons, Option.mem_some_iff, forall_eq']
    exact ⟨.string _, response.wellFormed_toJson, List.forall_mem_nil _⟩
  unfold ofResponse
  split
  · exact fields "success"
  · exact fields "error"

namespace Trace

/-- **The encodings of a trace agree.**  The indented text of a trace, the compact text of a
response with it and the reply with that response are read as documents that hold the same
document of the trace, no object of which has a name twice; in the reply its members are in
another order, and nothing else.  Less the blanks outside its strings, the indented text is
the part of the compact one that stands for the trace. -/
theorem encodings_agree (steps : Trace) (output : Text) (elapsed : Nat) :
    let response := Response.visualized steps output elapsed
    let indented := render .json steps
    ∃ document reordered : Json.Document,
      Json.Document.read? indented = some document ∧
      Json.Document.read? response.toJson.write = some (.object
        [("success".toList, .bool true), ("output".toList, .string (Json.escape output)),
          ("visualizationSteps".toList, document),
          ("executionTime".toList, .number (Text.ofNat elapsed))]) ∧
      Json.Document.read? (Reply.ofResponse response).toJson.sorted.write = some (.object
        [("data".toList, .object
          [("executionTime".toList, .number (Text.ofNat elapsed)),
            ("output".toList, .string (Json.escape output)), ("success".toList, .bool true),
            ("visualizationSteps".toList, reordered)]),
          ("status".toList, .string "success".toList)]) ∧
      document = steps.toJson.document ∧ document.DistinctNames ∧ document.Reordered reordered ∧
      response.toJson.write =
        "\x7b\"success\":true,\"output\":".toList ++ (Json.string output).write ++
          ",\"visualizationSteps\":".toList ++ Json.withoutSpaces .outside indented ++
          ",\"executionTime\":".toList ++ Text.ofNat elapsed ++ "\x7d".toList := by
  intro response indented
  have formed := steps.wellFormed_toJson
  refine ⟨steps.toJson.document, steps.toJson.sorted.document, ?_, ?_, ?_, rfl,
    formed.distinctNames, formed.reordered, ?_⟩
  · exact Json.Document.read?_writeIndented formed.standard
  · exact Json.Document.read?_of_spaced response.wellFormed_toJson.standard
      (Json.Token.spaced_flatMap _)
  · exact Json.Document.read?_of_spaced (Reply.wellFormed_ofResponse response).sorted.standard
      (Json.Token.spaced_flatMap _)
  · have compact : Json.withoutSpaces .outside indented = steps.toJson.write :=
      Json.withoutSpaces_writeIndented formed.standard
    have value_eq : response.toJson = .object
        [("success".toList, .bool true), ("output".toList, .string output),
          ("visualizationSteps".toList, steps.toJson),
          ("executionTime".toList, .ofNat elapsed)] := rfl
    rw [compact, value_eq, Json.write_object, ← Json.write_ofNat]
    simp only [List.map_cons, List.map_nil, Text.join, List.intercalate_cons_cons,
      List.intercalate_singleton, List.append_assoc]
    rfl

end Trace
end Walkthrough
