import Walkthrough.Proofs.Double.Overflow
import Walkthrough.Proofs.Encodings

/-!
# Values in the export of a trace

Values stand at many places in a trace, and inside of lists (`Trace.Holds`), and the place of
a value in the trace is the place of its JSON in the export (`Trace.Holds.at?_toJson`).  What
stands there is a number for a number, a string for a text, an array for a list and a fixed
string for the placeholder, with one exception: a literal that is too great for a finite
double has an infinite one, and that has no number in JSON, but becomes null
(`synthesize_encoded`).
-/

namespace Walkthrough

/-! ## Places of values -/

/-- A value and the values inside it, by their positions. -/
inductive Value.Holds : Value → List Json.Key → Value → Prop where
  | itself (value : Value) : Holds value [] value
  | element {items : List Value} {i : Nat} {item part : Value} {path : List Json.Key}
      (found : items[i]? = some item) (h : Holds item path part) :
      Holds (.list items) (.item i :: path) part

inductive Frame.Holds (frame : Frame) : List Json.Key → Value → Prop where
  | parameter {name : Text} {value part : Value} {path : List Json.Key}
      (mem : (name, value) ∈ frame.parameters.entries) (h : value.Holds path part) :
      Holds frame (.member "parameters".toList :: .member name :: path) part
  | localVariable {name : Text} {value part : Value} {path : List Json.Key}
      (mem : (name, value) ∈ frame.localVariables.entries) (h : value.Holds path part) :
      Holds frame (.member "localVariables".toList :: .member name :: path) part
  | result {value part : Value} {path : List Json.Key} (found : frame.returnValue = some value)
      (h : value.Holds path part) : Holds frame (.member "returnValue".toList :: path) part

inductive Step.Holds (step : Step) : List Json.Key → Value → Prop where
  | environment {name : Text} {value part : Value} {path : List Json.Key}
      (mem : (name, value) ∈ step.environment.entries) (h : value.Holds path part) :
      Holds step (.member "variableStates".toList :: .member name :: path) part
  | frame {i : Nat} {frame : Frame} {part : Value} {path : List Json.Key}
      (found : step.frames[i]? = some frame) (h : frame.Holds path part) :
      Holds step (.member "stackFrames".toList :: .item i :: path) part
  | object {i : Nat} {object : MemoryObject} {part : Value} {path : List Json.Key}
      (found : step.memory[i]? = some object) (h : object.value.Holds path part) :
      Holds step (.member "memoryObjects".toList :: .item i :: .member "value".toList :: path) part
  | detected {i : Nat} {detected : DataStructure} {part : Value} {path : List Json.Key}
      (found : step.structures[i]? = some detected) (h : detected.data.Holds path part) :
      Holds step (.member "dataStructures".toList :: .item i :: .member "data".toList :: path) part

/-- At the end of a path from a trace stands a value. -/
inductive Trace.Holds (steps : Trace) : List Json.Key → Value → Prop where
  | step {k : Nat} {step : Step} {part : Value} {path : List Json.Key}
      (found : steps[k]? = some step) (h : step.Holds path part) :
      Holds steps (.item k :: path) part

/-! ## The same places in the export -/

section
variable {path : List Json.Key} {part : Value}

theorem Value.Holds.at?_toJson {value : Value} (h : value.Holds path part) :
    value.toJson.at? path = some part.toJson := by
  induction h with
  | itself value => rfl
  | element found _ ih =>
    rw [Value.toJson, Value.allToJson_eq_map, Json.at?_item found, ih]

theorem Value.at?_entriesToJson {entries : List (Text × Value)}
    (distinct : (entries.map Prod.fst).Nodup) {name : Text} {value : Value}
    (mem : (name, value) ∈ entries) (path : List Json.Key) :
    (entriesToJson entries).at? (.member name :: path) = value.toJson.at? path := by
  have names : (entriesToJson entries).names.Nodup := by
    rwa [entriesToJson, Json.names, List.map_map]
  have member : (entriesToJson entries).part? (.member name) = some value.toJson := by
    refine (lookup_reverse names name).trans ?_
    rw [lookup_map, (lookup_eq_some_iff_mem distinct).2 mem, Option.map_some]
  rw [Json.at?, member, Option.bind_some]

theorem Frame.Holds.at?_toJson {frame : Frame} (h : frame.Holds path part) :
    frame.toJson.at? path = some part.toJson := by
  cases h with
  | @parameter name value _ path mem h =>
    calc frame.toJson.at? (.member "parameters".toList :: .member name :: path)
      _ = (Value.entriesToJson frame.parameters.entries).at? (.member name :: path) :=
        Json.at?_record (by simp) (List.mem_of_getElem? (i := 1) rfl) _
      _ = value.toJson.at? path := Value.at?_entriesToJson frame.parameters.distinct mem path
      _ = some part.toJson := h.at?_toJson
  | @localVariable name value _ path mem h =>
    calc frame.toJson.at? (.member "localVariables".toList :: .member name :: path)
      _ = (Value.entriesToJson frame.localVariables.entries).at? (.member name :: path) :=
        Json.at?_record (by simp) (List.mem_of_getElem? (i := 2) rfl) _
      _ = value.toJson.at? path := Value.at?_entriesToJson frame.localVariables.names_nodup mem path
      _ = some part.toJson := h.at?_toJson
  | @result value _ path found h =>
    have field : frame.returnValue.map Value.toJson = some value.toJson := by rw [found]; rfl
    calc frame.toJson.at? (.member "returnValue".toList :: path)
      _ = value.toJson.at? path :=
        Json.at?_record (by simp) (field ▸ List.mem_of_getElem? (i := 3) rfl) _
      _ = some part.toJson := h.at?_toJson

theorem Step.Holds.at?_toJson {step : Step} (h : step.Holds path part) :
    step.toJson.at? path = some part.toJson := by
  cases h with
  | @environment name value _ path mem h =>
    calc step.toJson.at? (.member "variableStates".toList :: .member name :: path)
      _ = (Value.entriesToJson step.environment.entries).at? (.member name :: path) :=
        Json.at?_record (by simp) (List.mem_of_getElem? (i := 2) rfl) _
      _ = value.toJson.at? path := Value.at?_entriesToJson step.environment.names_nodup mem path
      _ = some part.toJson := h.at?_toJson
  | @frame i frame _ path found h =>
    calc step.toJson.at? (.member "stackFrames".toList :: .item i :: path)
      _ = step.frames.toJson.at? (.item i :: path) :=
        Json.at?_record (by simp) (List.mem_of_getElem? (i := 5) rfl) _
      _ = frame.toJson.at? path := Json.at?_item found path
      _ = some part.toJson := h.at?_toJson
  | @object i object _ path found h =>
    calc step.toJson.at?
          (.member "memoryObjects".toList :: .item i :: .member "value".toList :: path)
      _ = (Json.array (step.memory.map MemoryObject.toJson)).at?
          (.item i :: .member "value".toList :: path) :=
        Json.at?_record (by simp) (List.mem_of_getElem? (i := 6) rfl) _
      _ = object.toJson.at? (.member "value".toList :: path) := Json.at?_item found _
      _ = object.value.toJson.at? path :=
        Json.at?_record (by simp) (List.mem_of_getElem? (i := 2) rfl) _
      _ = some part.toJson := h.at?_toJson
  | @detected i detected _ path found h =>
    calc step.toJson.at?
          (.member "dataStructures".toList :: .item i :: .member "data".toList :: path)
      _ = (Json.array (step.structures.map DataStructure.toJson)).at?
          (.item i :: .member "data".toList :: path) :=
        Json.at?_record (by simp) (List.mem_of_getElem? (i := 8) rfl) _
      _ = detected.toJson.at? (.member "data".toList :: path) := Json.at?_item found _
      _ = detected.data.toJson.at? path :=
        Json.at?_record (by simp) (List.mem_of_getElem? (i := 1) rfl) _
      _ = some part.toJson := h.at?_toJson

theorem Trace.Holds.at?_toJson {steps : Trace} (h : steps.Holds path part) :
    steps.toJson.at? path = some part.toJson := by
  cases h with
  | step found h => exact (Json.at?_item found _).trans h.at?_toJson

end

/-! ## What stands there -/

/-- What a value becomes in JSON. -/
inductive Value.Encoded : Value → Json → Prop where
  | int (n : Int32) : Encoded (.int n) (.number (Text.ofInt n.toInt))
  | double {l : DecimalLiteral} (finite : ¬ l.Overflows) :
      Encoded (.double l.toDouble) (.number (Json.numberLayout.write l.toDouble))
  | overflow {l : DecimalLiteral} (infinite : l.Overflows) : Encoded (.double l.toDouble) .null
  | text (t : Text) : Encoded (.text t) (.string t)
  | list {items : List Value} {parts : List Json} (h : List.Forall₂ Encoded items parts) :
      Encoded (.list items) (.array parts)
  | placeholder : Encoded .placeholder (.string "value".toList)

namespace Value

theorem encoded_double (l : DecimalLiteral) :
    (double l.toDouble).Encoded (double l.toDouble).toJson := by
  rw [toJson, Json.ofDouble]
  split
  · rename_i finite
    exact .double (l.isFinite_toDouble_iff.1 finite)
  · rename_i infinite
    exact .overflow (not_not.1 (mt l.isFinite_toDouble_iff.2 infinite))

theorem IsElement.encoded {value : Value} (h : value.IsElement) : value.Encoded value.toJson := by
  cases h with
  | int n => exact .int n
  | double l _ => exact encoded_double l
  | text _ _ => exact .text _

theorem IsClean.encoded {value : Value} (h : value.IsClean) : value.Encoded value.toJson := by
  cases h with
  | int n => exact .int n
  | double l _ => exact encoded_double l
  | text _ => exact .text _
  | list elements =>
    rw [toJson, allToJson_eq_map]
    refine .list (List.forall₂_map_right_iff.2 (List.forall₂_same.2 ?_))
    exact fun item mem => (elements item mem).encoded
  | placeholder => exact .placeholder

/-- Only a literal that is too great becomes null. -/
theorem Encoded.eq_null_iff {value : Value} {j : Json} (h : value.Encoded j) :
    j = .null ↔ ∃ l : DecimalLiteral, value = .double l.toDouble ∧ l.Overflows := by
  cases h with
  | overflow infinite => exact iff_of_true rfl ⟨_, rfl, infinite⟩
  | @double l finite =>
    refine iff_of_false nofun ?_
    rintro ⟨other, same, infinite⟩
    have isFinite := l.isFinite_toDouble_iff.2 finite
    rw [double.inj same] at isFinite
    exact other.isFinite_toDouble_iff.1 isFinite infinite
  | _ =>
    refine iff_of_false nofun ?_
    rintro ⟨l, same, -⟩
    cases same

/-- What is inside a clean value is clean. -/
theorem Holds.isClean {value part : Value} {path : List Json.Key} (h : value.Holds path part)
    (clean : value.IsClean) : part.IsClean := by
  induction h with
  | itself => exact clean
  | element found _ ih =>
    cases clean with
    | list elements => exact ih (elements _ (List.mem_of_getElem? found)).isClean

end Value

/-- Frames have nothing but placeholders. -/
theorem Frame.Holds.isClean {frame : Frame} {path : List Json.Key} {part : Value}
    (h : frame.Holds path part) (fresh : frame.IsFresh) : part.IsClean := by
  cases h with
  | @parameter name value _ _ mem h =>
    have unset : value = .placeholder := fresh.parameters _ mem
    exact h.isClean (unset ▸ .placeholder)
  | localVariable mem h =>
    rw [fresh.localVariables] at mem
    cases mem
  | result found h =>
    rw [fresh.returnValue] at found
    cases found

theorem Step.Holds.isClean {step : Step} {path : List Json.Key} {part : Value}
    (h : step.Holds path part) (clean : step.IsClean) : part.IsClean := by
  cases h with
  | environment mem h => exact h.isClean (clean.environment _ mem)
  | frame found h => exact h.isClean (clean.frames _ (List.mem_of_getElem? found))
  | object found h => exact h.isClean (clean.memory _ (List.mem_of_getElem? found))
  | detected found h => exact h.isClean (clean.structures _ (List.mem_of_getElem? found)).data

namespace Trace

section
variable {run : Run} (timed : run.IsTimed) (code : Text) (language : Language)
include timed

theorem read?_render : Json.read? (render .json (synthesize run code language)) =
    some (synthesize run code language).toJson :=
  Json.read?_writeIndented (readable_toJson 121 timed code language)

/-- **Values in the export of a trace.**  The indented text of a trace is read as a value in
which, wherever a value stands in the trace, its JSON stands: a number for a number, a string
for a text, an array of the elements for a list, and a fixed string for the placeholder.  But
null stands for doubles, too: for those of literals that are too great for a finite double,
and for nothing else. -/
theorem synthesize_encoded :
    ∃ exported, Json.read? (render .json (synthesize run code language)) = some exported ∧
      ∀ path value, (synthesize run code language).Holds path value →
        ∃ j, exported.at? path = some j ∧ value.Encoded j ∧
          (j = .null ↔ ∃ l : DecimalLiteral, value = .double l.toDouble ∧ l.Overflows) := by
  refine ⟨_, read?_render timed code language, fun path value stands => ?_⟩
  have clean : value.IsClean := by
    cases stands with
    | step found h => exact h.isClean (isClean_of_getElem? found)
  exact ⟨_, stands.at?_toJson, clean.encoded, clean.encoded.eq_null_iff⟩

end

/-- An item of a list. -/
theorem synthesize_encoded_item :
    Run.IsTimed ⟨[], fun _ => 0, 0⟩ ∧
    ∃ exported, Json.read? (render .json
        (synthesize ⟨[], fun _ => 0, 0⟩ "xs = [1, 'a']".toList .python)) = some exported ∧
      ∃ j, exported.at?
          [.item 0, .member "variableStates".toList, .member "xs".toList, .item 1] = some j ∧
        (Value.text "a".toList).Encoded j := by
  have stands : (synthesize ⟨[], fun _ => 0, 0⟩ "xs = [1, 'a']".toList .python).Holds
      [.item 0, .member "variableStates".toList, .member "xs".toList, .item 1]
      (.text "a".toList) :=
    .step rfl (.environment (.head _) (.element rfl (.itself _)))
  obtain ⟨exported, read, encoded⟩ :=
    synthesize_encoded Run.isTimed_zero "xs = [1, 'a']".toList .python
  obtain ⟨j, found, encoded, -⟩ := encoded _ _ stands
  exact ⟨Run.isTimed_zero, exported, read, j, found, encoded⟩

/-- A literal above the range of doubles becomes null. -/
theorem synthesize_encoded_overflow :
    ∃ x, (synthesize ⟨[], fun _ => 0, 0⟩ "x = 1.0e999".toList .python).Holds
        [.item 0, .member "variableStates".toList, .member "x".toList] (.double x) ∧
      ∃ exported, Json.read? (render .json
          (synthesize ⟨[], fun _ => 0, 0⟩ "x = 1.0e999".toList .python)) = some exported ∧
        exported.at? [.item 0, .member "variableStates".toList, .member "x".toList] =
          some .null := by
  have stands : (synthesize ⟨[], fun _ => 0, 0⟩ "x = 1.0e999".toList .python).Holds
      [.item 0, .member "variableStates".toList, .member "x".toList]
      (.double (DecimalLiteral.toDouble ⟨false, 10, 998⟩)) :=
    .step rfl (.environment (.head _) (.itself _))
  exact ⟨_, stands, _, read?_render Run.isTimed_zero _ _, stands.at?_toJson⟩

end Trace
end Walkthrough
