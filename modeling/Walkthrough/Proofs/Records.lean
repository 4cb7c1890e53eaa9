import Walkthrough.Proofs.States
import Walkthrough.Proofs.Text.ByteOrder

/-!
# The three records of an assignment

An assignment is entered three times: under its name in the environment, as a memory
object, and as a detected structure when its value is a list.  `Agreeing` says that the
three records tell one story; `Agreeing.bind` keeps it through an assignment, and
`synthesize_agreeing` finds it in every step of every trace.
-/

namespace Walkthrough

/-- The last memory object that refers to a variable. -/
def MemoryObject.last? (memory : List MemoryObject) (name : Text) : Option MemoryObject :=
  (memory.filter fun object => object.references.contains name).getLast?

theorem MemoryObject.last?_concat (memory : List MemoryObject) (object : MemoryObject)
    (name : Text) :
    last? (memory ++ [object]) name =
      if name ∈ object.references then some object else last? memory name := by
  unfold last?
  rw [List.filter_append]
  by_cases h : name ∈ object.references
  · simp [h]
  · simp [h]

/-- An environment, a memory and a list of structures record the same assignments. -/
structure Agreeing (environment : Environment) (memory : List MemoryObject)
    (structures : List DataStructure) : Prop where
  single : ∀ object ∈ memory, ∃ name, object.references = [name]
  tagged : ∀ object ∈ memory, object.typeTag = object.value.typeTag
  increasing : environment.names.Pairwise Text.BytesPrecede
  names : ∀ name, name ∈ environment.names ↔ ∃ object ∈ memory, name ∈ object.references
  /-- Earlier objects of a variable keep the values that it had. -/
  values : ∀ name, environment.get? name = (MemoryObject.last? memory name).map (·.value)
  structures : structures.map some =
    (memory.filter fun object => object.value.items?.isSome).map fun object =>
      DataStructure.detect? object.value

theorem Agreeing.start : Agreeing .empty [] [] where
  single := by simp
  tagged := by simp
  increasing := .nil
  names := by simp [Dictionary.names, Dictionary.empty]
  values := by simp [MemoryObject.last?, Dictionary.get?, Dictionary.empty]
  structures := rfl

/-- An assignment adds to the three records at once. -/
theorem Agreeing.bind {environment : Environment} {memory : List MemoryObject}
    {structures : List DataStructure} (h : Agreeing environment memory structures)
    (address : Address) (name : Text) (value : Value) :
    Agreeing (environment.insert name value) (memory ++ [.ofVariable address name value])
      (structures ++ (DataStructure.detect? value).toList) := by
  constructor
  case single =>
    intro object mem
    rcases List.mem_append.1 mem with old | new
    · exact h.single object old
    · exact ⟨name, List.mem_singleton.1 new ▸ rfl⟩
  case tagged =>
    intro object mem
    rcases List.mem_append.1 mem with old | new
    · exact h.tagged object old
    · exact List.mem_singleton.1 new ▸ rfl
  case increasing =>
    exact (environment.insert name value).increasing.imp Text.bytesPrecede_of_precedes
  case names =>
    intro other
    rw [Dictionary.mem_names_insert, h.names]
    simp [MemoryObject.ofVariable, or_and_right, exists_or, or_comm]
  case values =>
    intro other
    rw [Dictionary.get?_insert, MemoryObject.last?_concat]
    by_cases same : other = name
    · simp [same, MemoryObject.ofVariable]
    · simp [same, MemoryObject.ofVariable, h.values]
  case structures =>
    rw [List.map_append, h.structures, List.filter_append, List.map_append]
    cases items : value.items? with
    | none => simp [DataStructure.detect?, MemoryObject.ofVariable, items]
    | some items => simp [DataStructure.detect?, MemoryObject.ofVariable, items]

theorem Sweep.enter_agreeing {s : Sweep} (edge : Option Edge) (lineNumber : Nat) (line : Text)
    (h : Agreeing s.environment s.memory s.structures) :
    Agreeing (s.enter edge lineNumber line).environment (s.enter edge lineNumber line).memory
      (s.enter edge lineNumber line).structures := by
  rw [enter_environment, enter_memory, enter_structures]
  by_cases assigns : Line.isAssignment line = true
  · simp only [assigns, if_true]
    exact h.bind _ _ _
  · simpa only [assigns, Bool.false_eq_true, if_false] using h

namespace Trace

theorem agreeing_of_getElem? {run : Run} {code : Text} {language : Language} {k : Nat}
    {step : Step} (h : (synthesize run code language)[k]? = some step) :
    Agreeing step.environment step.memory step.structures := by
  have pictures := pictures_stateAt h
  rw [pictures.environment, pictures.memory, pictures.structures]
  refine stateAt_invariant (fun s => Agreeing s.environment s.memory s.structures)
    .start (fun s edge lineNumber line => s.enter_agreeing edge lineNumber line) ?_ k
  intro s line agreeing
  simpa using agreeing

/-- **The records of a step agree.** In every step each memory object belongs to one
variable and has the tag of its value; the variables are listed in the order of their
bytes, each with the value of its last object; and the structures are those of the
objects that hold a list, in their order. -/
theorem synthesize_agreeing (run : Run) (code : Text) (language : Language) (step : Step)
    (h : step ∈ synthesize run code language) :
    Agreeing step.environment step.memory step.structures := by
  obtain ⟨k, found⟩ := List.mem_iff_getElem?.1 h
  exact agreeing_of_getElem? found

/-- A variable that becomes a list and is copied has three objects and two structures. -/
theorem synthesize_agreeing_copied :
    ∃ step ∈ synthesize ⟨[], fun _ => 0, 0⟩ "x = 1\nx = [2]\ny = x".toList .python,
      step.memory.length = 3 ∧ step.structures.length = 2 ∧
      Agreeing step.environment step.memory step.structures := by
  have third := List.get_mem
    (synthesize ⟨[], fun _ => 0, 0⟩ "x = 1\nx = [2]\ny = x".toList .python) ⟨2, by decide⟩
  exact ⟨_, third, by decide, by decide, synthesize_agreeing _ _ _ _ third⟩

end Trace
end Walkthrough
