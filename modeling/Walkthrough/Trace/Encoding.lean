import Walkthrough.Json
import Walkthrough.Trace.Step

/-!
# Traces as JSON

The members of every object come in a fixed order, and those without a value are left
out.  A placeholder is written as the text that stands for it.
-/

namespace Walkthrough

mutual
def Value.toJson : Value → Json
  | .int n => .ofInt n.toInt
  | .double x => .ofDouble x
  | .text t => .string t
  | .list items => .array (Value.allToJson items)
  | .placeholder => .string Value.placeholderText

def Value.allToJson : List Value → List Json
  | [] => []
  | value :: rest => value.toJson :: Value.allToJson rest
end

theorem Value.allToJson_eq_map (items : List Value) : allToJson items = items.map toJson := by
  induction items with
  | nil => rfl
  | cons value rest ih => simp [allToJson, ih]

def Value.entriesToJson (entries : List (Text × Value)) : Json :=
  .object (entries.map fun (name, value) => (name, value.toJson))

def Frame.toJson (frame : Frame) : Json :=
  .record
    [("functionName", some (.string frame.functionName)),
      ("parameters", some (Value.entriesToJson frame.parameters.entries)),
      ("localVariables", some (Value.entriesToJson frame.localVariables.entries)),
      ("returnValue", frame.returnValue.map Value.toJson),
      ("lineNumber", some (.ofNat frame.lineNumber))]

def CallStack.toJson (stack : CallStack) : Json := .array (stack.map Frame.toJson)

def MemoryObject.toJson (object : MemoryObject) : Json :=
  .record
    [("address", some (.string object.address)),
      ("type", some (.string object.typeTag)),
      ("value", some object.value.toJson),
      ("references", some (.strings object.references))]

def Edge.toJson (edge : Edge) : Json :=
  .record
    [("fromLine", some (.ofNat edge.source)),
      ("toLine", some (.ofNat edge.target)),
      ("type", some (.string edge.flow.name)),
      ("condition", edge.condition.map .bool)]

def DataStructure.toJson (detected : DataStructure) : Json :=
  .record
    [("type", some (.string detected.shape.name)),
      ("data", some detected.data.toJson),
      ("operations", some (.strings detected.operations))]

def Step.toJson (step : Step) : Json :=
  .record
    [("stepNumber", some (.ofNat step.number)),
      ("description", some (.string step.description)),
      ("variableStates", some (Value.entriesToJson step.environment.entries)),
      ("lineHighlight", step.highlight.map .ofNat),
      ("output", step.output.map .string),
      ("stackFrames", some (CallStack.toJson step.frames)),
      ("memoryObjects", some (.array (step.memory.map MemoryObject.toJson))),
      ("controlFlow", some (.array (step.edges.map Edge.toJson))),
      ("dataStructures", some (.array (step.structures.map DataStructure.toJson))),
      ("timestamp", some (.ofNat step.timestamp))]

def Trace.toJson (steps : Trace) : Json := .array (steps.map Step.toJson)

end Walkthrough
