import Walkthrough.Proofs.Encodings
import Walkthrough.Proofs.Json.Injective
import Walkthrough.Proofs.Json.Paths
import Walkthrough.Proofs.Records

/-!
# What the export of a trace keeps

A placeholder is written as the text that stands for it, so that the JSON of a value does
not fix the value.  That of a step does, unless there are doubles in it: the type beside a
memory object says which of the two its value is, the memory fixes the variables and the
structures (`Agreeing.unique`), lists have no placeholders, and frames nothing else.  So two
traces with the same export are one (`synthesize_lossless`).
-/

namespace Walkthrough

/-! ## Values -/

mutual
/-- Whether a value is a double or has one inside. -/
def Value.hasDouble : Value → Bool
  | .double _ => true
  | .list items => Value.anyHasDouble items
  | .int _ => false
  | .text _ => false
  | .placeholder => false

def Value.anyHasDouble : List Value → Bool
  | [] => false
  | value :: rest => value.hasDouble || Value.anyHasDouble rest
end

def Frame.values (frame : Frame) : List Value :=
  frame.parameters.entries.map Prod.snd ++ frame.localVariables.entries.map Prod.snd ++
    frame.returnValue.toList

/-- All values of a step, but for those inside lists. -/
def Step.values (step : Step) : List Value :=
  step.environment.entries.map Prod.snd ++ step.frames.flatMap Frame.values ++
    step.memory.map (·.value) ++ step.structures.map (·.data)

def Trace.HasNoDoubles (steps : Trace) : Prop :=
  ∀ step ∈ steps, ∀ value ∈ step.values, value.hasDouble = false

instance (steps : Trace) : Decidable steps.HasNoDoubles :=
  inferInstanceAs (Decidable (∀ step ∈ steps, ∀ value ∈ step.values, value.hasDouble = false))

namespace Value

theorem anyHasDouble_eq_false {items : List Value} :
    anyHasDouble items = false ↔ ∀ item ∈ items, item.hasDouble = false := by
  induction items with
  | nil => exact iff_of_true rfl (List.forall_mem_nil _)
  | cons value rest ih => rw [anyHasDouble, Bool.or_eq_false_iff, ih, List.forall_mem_cons]

theorem typeTag_eq_object_iff {value : Value} :
    value.typeTag = "Object".toList ↔ value = .placeholder := by
  cases value with
  | int => exact iff_of_false (show "int".toList ≠ _ by decide) nofun
  | double => exact iff_of_false (show "double".toList ≠ _ by decide) nofun
  | text => exact iff_of_false (show "String".toList ≠ _ by decide) nofun
  | list => exact iff_of_false (show "List/Array".toList ≠ _ by decide) nofun
  | placeholder => exact iff_of_true rfl rfl

theorem typeTag_eq_string_iff {value : Value} :
    value.typeTag = "String".toList ↔ ∃ t, value = .text t := by
  cases value with
  | int => exact iff_of_false (show "int".toList ≠ _ by decide) nofun
  | double => exact iff_of_false (show "double".toList ≠ _ by decide) nofun
  | text t => exact iff_of_true rfl ⟨t, rfl⟩
  | list => exact iff_of_false (show "List/Array".toList ≠ _ by decide) nofun
  | placeholder => exact iff_of_false (show "Object".toList ≠ _ by decide) nofun

theorem int_toJson_injective {m n : Int32} (same : (int m).toJson = (int n).toJson) : m = n :=
  Int32.toInt_inj.1 (Json.ofInt_injective same)

theorem IsElement.eq_of_toJson_eq {value other : Value} (h : value.IsElement)
    (h' : other.IsElement) (plain : value.hasDouble = false) (plain' : other.hasDouble = false)
    (same : value.toJson = other.toJson) : value = other := by
  cases h with
  | int m =>
    cases h' with
    | int n => rw [int_toJson_injective same]
    | double => cases plain'
    | text => cases same
  | double => cases plain
  | text =>
    cases h' with
    | int => cases same
    | double => cases plain'
    | text => rw [Json.string.inj same]

/-- Two values with one type and without doubles are not written alike. -/
theorem IsClean.eq_of_toJson_eq {value other : Value} (h : value.IsClean) (h' : other.IsClean)
    (plain : value.hasDouble = false) (plain' : other.hasDouble = false)
    (tag : value.typeTag = other.typeTag) (same : value.toJson = other.toJson) : value = other := by
  cases h with
  | int m =>
    cases h' with
    | int n => rw [int_toJson_injective same]
    | double => cases plain'
    | _ => cases same
  | double => cases plain
  | text =>
    cases h' with
    | text => rw [Json.string.inj same]
    | double => cases plain'
    | placeholder => cases typeTag_eq_object_iff.1 tag
    | _ => cases same
  | list elements =>
    cases h' with
    | list elements' =>
      simp only [toJson, allToJson_eq_map, Json.array.injEq] at same
      rw [hasDouble, anyHasDouble_eq_false] at plain plain'
      refine congrArg Value.list (eq_of_map_eq (fun item mem item' mem' => ?_) same)
      exact (elements item mem).eq_of_toJson_eq (elements' item' mem') (plain item mem)
        (plain' item' mem')
    | double => cases plain'
    | _ => cases same
  | placeholder =>
    cases h' with
    | placeholder => rfl
    | double => cases plain'
    | text => cases typeTag_eq_object_iff.1 tag.symm
    | _ => cases same

/-- Entries without values are known by their names. -/
theorem eq_of_entriesToJson_eq {entries others : List (Text × Value)}
    (h : ∀ entry ∈ entries, entry.2 = .placeholder) (h' : ∀ entry ∈ others, entry.2 = .placeholder)
    (same : entriesToJson entries = entriesToJson others) : entries = others := by
  refine eq_of_map_eq (fun entry mem other mem' equal => ?_) (Json.object.inj same)
  exact Prod.ext (Prod.mk.inj equal).1 ((h entry mem).trans (h' other mem').symm)

end Value

/-! ## The parts of a step -/

/-- A memory object that its JSON fixes. -/
structure MemoryObject.IsPlain (object : MemoryObject) : Prop where
  tagged : object.typeTag = object.value.typeTag
  clean : object.value.IsClean
  plain : object.value.hasDouble = false

theorem MemoryObject.IsPlain.eq_of_toJson_eq {object other : MemoryObject} (h : object.IsPlain)
    (h' : other.IsPlain) (same : object.toJson = other.toJson) : object = other := by
  have fields := Json.record_injective same rfl (by simp)
  simp only [List.cons.injEq, Prod.mk.injEq, Option.some.injEq, Json.string.injEq, true_and,
    and_true] at fields
  obtain ⟨address, tag, value, references⟩ := fields
  have tags : object.value.typeTag = other.value.typeTag := by rw [← h.tagged, tag, h'.tagged]
  have value := h.clean.eq_of_toJson_eq h'.clean h.plain h'.plain tags value
  have references := Json.strings_injective references
  cases object
  cases other
  congr

theorem Frame.IsFresh.eq_of_toJson_eq {frame other : Frame} (h : frame.IsFresh)
    (h' : other.IsFresh) (same : frame.toJson = other.toJson) : frame = other := by
  have fields := Json.record_injective same rfl (by simp)
  simp only [List.cons.injEq, Prod.mk.injEq, Option.some.injEq, Json.string.injEq, true_and,
    and_true] at fields
  obtain ⟨name, parameters, -, -, line⟩ := fields
  have parameters := Value.eq_of_entriesToJson_eq h.parameters h'.parameters parameters
  have line := Json.ofNat_injective line
  have locals := h.localVariables.trans h'.localVariables.symm
  have result := h.returnValue.trans h'.returnValue.symm
  obtain ⟨_, ⟨_, _⟩, ⟨_, _⟩, _, _⟩ := frame
  obtain ⟨_, ⟨_, _⟩, ⟨_, _⟩, _, _⟩ := other
  congr

theorem Flow.name_injective : Function.Injective name := by
  intro flow other same
  cases flow <;> cases other <;> first | rfl | exact absurd same (by decide)

theorem Edge.toJson_injective : Function.Injective toJson := by
  intro edge other same
  have fields := Json.record_injective same rfl (by simp)
  simp only [List.cons.injEq, Prod.mk.injEq, Option.some.injEq, Json.string.injEq, true_and,
    and_true] at fields
  obtain ⟨source, target, flow, condition⟩ := fields
  have source := Json.ofNat_injective source
  have target := Json.ofNat_injective target
  have flow := Flow.name_injective flow
  have condition := Option.map_injective Json.bool_injective condition
  cases edge
  cases other
  congr

/-- The memory fixes what the other two records are. -/
theorem Agreeing.unique {environment environment' : Environment} {memory : List MemoryObject}
    {structures structures' : List DataStructure} (h : Agreeing environment memory structures)
    (h' : Agreeing environment' memory structures') :
    environment = environment' ∧ structures = structures' := by
  constructor
  · exact Dictionary.ext_get? fun name => (h.values name).trans (h'.values name).symm
  · have same := h.structures.trans h'.structures.symm
    exact List.map_injective_iff.2 (fun _ _ => Option.some.inj) same

/-- A step that its JSON fixes. -/
structure Step.IsPlain (step : Step) : Prop where
  agreeing : Agreeing step.environment step.memory step.structures
  objects : ∀ object ∈ step.memory, object.IsPlain
  frames : ∀ frame ∈ step.frames, frame.IsFresh

theorem Step.IsPlain.eq_of_toJson_eq {step other : Step} (h : step.IsPlain) (h' : other.IsPlain)
    (same : step.toJson = other.toJson) : step = other := by
  have fields := Json.record_injective same rfl (by simp)
  simp only [List.cons.injEq, Prod.mk.injEq, Option.some.injEq, Json.string.injEq,
    Json.array.injEq, CallStack.toJson, true_and, and_true] at fields
  obtain ⟨number, description, -, highlight, output, frames, memory, edges, -, timestamp⟩ := fields
  have number := Json.ofNat_injective number
  have highlight := Option.map_injective Json.ofNat_injective highlight
  have output := Option.map_injective Json.string_injective output
  have frames := eq_of_map_eq (fun frame mem frame' mem' =>
    (h.frames frame mem).eq_of_toJson_eq (h'.frames frame' mem')) frames
  have memory := eq_of_map_eq (fun object mem object' mem' =>
    (h.objects object mem).eq_of_toJson_eq (h'.objects object' mem')) memory
  have edges := List.map_injective_iff.2 Edge.toJson_injective edges
  have timestamp := Json.ofNat_injective timestamp
  obtain ⟨environment, structures⟩ := h.agreeing.unique (memory ▸ h'.agreeing)
  cases step
  cases other
  congr

/-! ## Traces -/

/-- What tells the placeholders of a step from the texts that are written alike. -/
structure Step.TellsPlaceholders (step : Step) : Prop where
  /-- The last object of a variable has a type of its own for each of the two. -/
  lastObjects : ∀ name value, step.environment.get? name = some value →
    ∃ object, MemoryObject.last? step.memory name = some object ∧ object.value = value ∧
      (object.typeTag = "Object".toList ↔ value = .placeholder) ∧
      (object.typeTag = "String".toList ↔ ∃ t, value = .text t)
  /-- No list is inside another one, either. -/
  lists : ∀ items, .list items ∈ step.values → ∀ item ∈ items,
    item ≠ .placeholder ∧ item.items? = none
  parameters : ∀ frame ∈ step.frames, ∀ entry ∈ frame.parameters.entries, entry.2 = .placeholder

theorem Step.IsClean.values {step : Step} (h : step.IsClean) :
    ∀ value ∈ step.values, value.IsClean := by
  have frames : ∀ value ∈ step.frames.flatMap Frame.values, value.IsClean := by
    intro value mem
    obtain ⟨frame, inside, mem⟩ := List.mem_flatMap.1 mem
    have fresh := h.frames frame inside
    rw [Frame.values, fresh.localVariables, fresh.returnValue, List.map_nil, List.append_nil,
      Option.toList_none, List.append_nil] at mem
    obtain ⟨entry, inside, rfl⟩ := List.mem_map.1 mem
    exact fresh.parameters entry inside ▸ .placeholder
  simp only [Step.values, List.forall_mem_append, List.forall_mem_map]
  exact ⟨⟨⟨h.environment, frames⟩, h.memory⟩, fun detected mem => (h.structures detected mem).data⟩

namespace Trace

theorem eq_of_render_eq {steps others : Trace} (same : render .json steps = render .json others) :
    steps.toJson = others.toJson :=
  Json.eq_of_writeIndented_eq steps.wellFormed_toJson.standard others.wellFormed_toJson.standard
    same

section
variable {run : Run} {code : Text} {language : Language}

theorem tellsPlaceholders_of_mem {step : Step} (h : step ∈ synthesize run code language) :
    step.TellsPlaceholders := by
  obtain ⟨k, found⟩ := List.mem_iff_getElem?.1 h
  have agreeing := agreeing_of_getElem? found
  have clean := isClean_of_getElem? found
  constructor
  case lastObjects =>
    intro name value known
    rw [agreeing.values, Option.map_eq_some_iff] at known
    obtain ⟨object, last, rfl⟩ := known
    have tagged : object.typeTag = object.value.typeTag :=
      agreeing.tagged object (List.mem_of_mem_filter (List.mem_of_getLast? last))
    refine ⟨object, last, rfl, ?_, ?_⟩
    · rw [tagged, Value.typeTag_eq_object_iff]
    · rw [tagged, Value.typeTag_eq_string_iff]
  case lists =>
    intro items mem item inside
    cases clean.values _ mem with
    | list elements => cases elements item inside <;> exact ⟨nofun, rfl⟩
  case parameters => exact fun frame mem => (clean.frames frame mem).parameters

theorem isPlain_of_mem (plain : (synthesize run code language).HasNoDoubles) {step : Step}
    (h : step ∈ synthesize run code language) : step.IsPlain := by
  obtain ⟨k, found⟩ := List.mem_iff_getElem?.1 h
  have agreeing := agreeing_of_getElem? found
  have clean := isClean_of_getElem? found
  refine ⟨agreeing, fun object mem => ?_, clean.frames⟩
  have shown : object.value ∈ step.values :=
    List.mem_append_left _ (List.mem_append_right _ (List.mem_map_of_mem mem))
  exact ⟨agreeing.tagged object mem, clean.memory object mem, plain step h _ shown⟩

end

/-- **The export of a trace loses nothing.**  A placeholder is written like a text, but in
every step the last object of a variable tells the two apart by its type, no list has a
placeholder in it, and the parameters of frames are nothing but placeholders.  So of any two
snippets, languages and runs, if there are no doubles in the traces and their indented texts
are the same, then so are the traces. -/
theorem synthesize_lossless (run run' : Run) (code code' : Text) (language language' : Language) :
    let steps := synthesize run code language
    let steps' := synthesize run' code' language'
    Value.placeholder.toJson = (Value.text "value".toList).toJson ∧
    (∀ step ∈ steps, step.TellsPlaceholders) ∧
    (steps.HasNoDoubles → steps'.HasNoDoubles → render .json steps = render .json steps' →
      steps = steps') := by
  intro steps steps'
  refine ⟨rfl, fun step => tellsPlaceholders_of_mem, fun plain plain' same => ?_⟩
  refine eq_of_map_eq (fun step mem step' mem' => ?_) (Json.array.inj (eq_of_render_eq same))
  exact (isPlain_of_mem plain mem).eq_of_toJson_eq (isPlain_of_mem plain' mem')

/-- Blanks around a line do not show in its trace. -/
theorem synthesize_lossless_trimmed :
    let steps := synthesize ⟨[], fun _ => 0, 0⟩ "x = 'value'".toList .python
    let steps' := synthesize ⟨[], fun _ => 0, 0⟩ "  x = 'value'".toList .python
    steps.HasNoDoubles ∧ steps'.HasNoDoubles ∧ render .json steps = render .json steps' ∧
      steps = steps' := by
  have plain : (synthesize ⟨[], fun _ => 0, 0⟩ "x = 'value'".toList .python).HasNoDoubles := by
    decide +kernel
  have plain' : (synthesize ⟨[], fun _ => 0, 0⟩ "  x = 'value'".toList .python).HasNoDoubles := by
    decide +kernel
  have same : render .json (synthesize ⟨[], fun _ => 0, 0⟩ "x = 'value'".toList .python) =
      render .json (synthesize ⟨[], fun _ => 0, 0⟩ "  x = 'value'".toList .python) := by
    decide +kernel
  exact ⟨plain, plain', same, (synthesize_lossless _ _ _ _ _ _).2.2 plain plain' same⟩

end Trace
end Walkthrough
