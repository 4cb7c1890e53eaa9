import Mathlib.Data.List.Nodup
import Mathlib.Logic.Equiv.Basic
import Walkthrough.Proofs.Causality

/-!
# Addresses

Which addresses the objects of a trace have is chance; everything else is the snippet's.
An object has an address of its own and keeps it (`Trace.Addressed`).  Two runs over one
snippet reach states with the same contents (`Sweep.SameContent`), so one renaming takes
the objects of the one to the objects of the other, in all steps at once.

* `addresses_nodup` and `stateAt_memory_grows` are what one run does with addresses;
* `exists_renaming` finds the renaming of two runs, by `exists_perm_map_eq`;
* `synthesize_idempotent` compares the two traces.
-/

namespace Walkthrough

/-- An object without its address. -/
def MemoryObject.content (object : MemoryObject) : Text × Value × List Text :=
  (object.typeTag, object.value, object.references)

def MemoryObject.renamed (rename : Address → Address) (object : MemoryObject) : MemoryObject :=
  { object with address := rename object.address }

def Step.renamed (rename : Address → Address) (step : Step) : Step :=
  { step with memory := step.memory.map (MemoryObject.renamed rename) }

/-- A step without its time and without the text of its output, if it has one. -/
def Step.muted (step : Step) : Step :=
  { step.untimed with output := step.output.map fun _ => [] }

theorem Step.muted_congr {s t : Step} (h : s.untimed = t.untimed) : s.muted = t.muted :=
  congrArg (fun step => { step with output := step.output.map fun _ => [] }) h

/-- In no step do two objects have one address, and the objects of a step stand unchanged
in every later one. -/
structure Trace.Addressed (steps : Trace) : Prop where
  distinct : ∀ step ∈ steps, (step.memory.map (·.address)).Nodup
  kept : steps.Pairwise fun before after => before.memory <+: after.memory

/-- Any distinct names can be renamed to any others. -/
theorem exists_perm_map_eq {α : Type} [DecidableEq α] {xs ys : List α} (hx : xs.Nodup)
    (hy : ys.Nodup) (same : xs.length = ys.length) :
    ∃ rename : Equiv.Perm α, xs.map rename = ys := by
  induction xs generalizing ys with
  | nil => exact ⟨Equiv.refl α, (List.eq_nil_of_length_eq_zero same.symm).symm⟩
  | cons x xs ih =>
    cases ys with
    | nil => cases same
    | cons y ys =>
      obtain ⟨new_x, hx⟩ := List.nodup_cons.1 hx
      obtain ⟨new_y, hy⟩ := List.nodup_cons.1 hy
      obtain ⟨rename, renamed⟩ := ih hx hy (Nat.succ.inj same)
      -- the first name is put right by a swap, which leaves the others where they are
      refine ⟨rename.trans (Equiv.swap (rename x) y), ?_⟩
      rw [List.map_cons]
      congr 1
      · exact Equiv.swap_apply_left _ _
      · rw [← renamed]
        apply List.map_congr_left
        intro z hz
        have other : rename z ≠ rename x := fun eq => new_x (rename.injective eq ▸ hz)
        have not_y : rename z ≠ y := fun eq => new_y (eq ▸ renamed ▸ List.mem_map_of_mem hz)
        exact Equiv.swap_apply_of_ne_of_ne other not_y

theorem MemoryObject.map_renamed_eq {rename : Address → Address}
    {objects objects' : List MemoryObject}
    (contents : objects.map content = objects'.map content)
    (addresses : (objects.map (·.address)).map rename = objects'.map (·.address)) :
    objects.map (renamed rename) = objects' := by
  induction objects generalizing objects' with
  | nil => exact (List.map_eq_nil_iff.1 contents.symm).symm
  | cons object objects ih =>
    cases objects' with
    | nil => cases contents
    | cons object' objects' =>
      simp only [List.map_cons, List.cons.injEq] at contents addresses ⊢
      obtain ⟨content_eq, contents⟩ := contents
      obtain ⟨address_eq, addresses⟩ := addresses
      simp only [content, Prod.mk.injEq] at content_eq
      obtain ⟨tag_eq, value_eq, references_eq⟩ := content_eq
      refine ⟨?_, ih contents addresses⟩
      rw [renamed, address_eq, tag_eq, value_eq, references_eq]

/-! ## One run -/

namespace Trace

theorem addresses_nodup (run : Run) (code : Text) (k : Nat) :
    ((stateAt run code k).memory.map (·.address)).Nodup := by
  apply stateAt_invariant fun s => (s.memory.map (·.address)).Nodup
  case start => exact List.nodup_nil
  case enter =>
    intro s edge lineNumber line distinct
    rw [Sweep.enter_memory]
    split
    · have new := Address.draw_not_mem (s.memory.map (·.address)) s.candidates
      have extended := distinct.concat new
      rw [List.concat_eq_append] at extended
      rw [List.map_append]
      exact extended
    · exact distinct
  case leave =>
    intro s line distinct
    rw [Sweep.leave_memory]
    exact distinct

theorem stateBefore_memory_grows (run : Run) (code : Text) (k : Nat) :
    (stateBefore run code k).memory <+: (stateAt run code k).memory := by
  cases h : (visited code)[k]? with
  | none => exact (stateAt_of_none h).symm ▸ List.prefix_rfl
  | some item =>
    rw [stateAt_eq_enter h, Sweep.enter_memory]
    split
    · exact List.prefix_append _ _
    · exact List.prefix_rfl

theorem stateBefore_succ_memory (run : Run) (code : Text) (k : Nat) :
    (stateBefore run code (k + 1)).memory = (stateAt run code k).memory := by
  cases h : (visited code)[k]? with
  | none => rw [stateBefore_succ_of_none h, stateAt_of_none h]
  | some item => rw [stateBefore_succ h, Sweep.leave_memory]

/-- Objects are only added. -/
theorem stateAt_memory_grows (run : Run) (code : Text) {j k : Nat} (h : j ≤ k) :
    (stateAt run code j).memory <+: (stateAt run code k).memory := by
  induction h with
  | refl => exact List.prefix_rfl
  | @step k _ ih =>
    have next := stateBefore_memory_grows run code (k + 1)
    rw [stateBefore_succ_memory] at next
    exact ih.trans next

theorem addressed_synthesize (run : Run) (code : Text) (language : Language) :
    Addressed (synthesize run code language) where
  distinct step mem := by
    obtain ⟨k, found⟩ := List.mem_iff_getElem?.1 mem
    rw [(pictures_stateAt found).memory]
    exact addresses_nodup run code k
  kept := by
    rw [List.pairwise_iff_getElem]
    intro i j hi hj earlier
    rw [(pictures_stateAt (List.getElem?_eq_getElem hi)).memory,
      (pictures_stateAt (List.getElem?_eq_getElem hj)).memory]
    exact stateAt_memory_grows run code (Nat.le_of_lt earlier)

end Trace

/-! ## Two runs -/

/-- Two states that differ in their addresses only, and in the candidates for more. -/
structure Sweep.SameContent (s t : Sweep) : Prop where
  environment : s.environment = t.environment
  stack : s.stack = t.stack
  contents : s.memory.map MemoryObject.content = t.memory.map MemoryObject.content
  edges : s.edges = t.edges
  structures : s.structures = t.structures

namespace Sweep

section
variable {s t : Sweep}

theorem SameContent.enter (h : s.SameContent t) (edge : Option Edge) (lineNumber : Nat)
    (line : Text) :
    (s.enter edge lineNumber line).SameContent (t.enter edge lineNumber line) := by
  constructor
  case environment => rw [enter_environment, enter_environment, h.environment]
  case stack => rw [enter_stack, enter_stack, h.stack]
  case contents =>
    rw [enter_memory, enter_memory, h.environment]
    split
    · rw [List.map_append, List.map_append, h.contents]
      rfl
    · exact h.contents
  case edges => rw [enter_edges, enter_edges, h.edges]
  case structures => rw [enter_structures, enter_structures, h.structures, h.environment]

theorem SameContent.leave (h : s.SameContent t) (line : Text) :
    (s.leave line).SameContent (t.leave line) := by
  constructor
  case stack => rw [leave_stack, leave_stack, h.stack]
  all_goals simp only [leave_environment, leave_memory, leave_edges, leave_structures,
    h.environment, h.contents, h.edges, h.structures]

variable {rename : Address → Address} (clock clock' : Nat → Nat) (number : Nat)

theorem SameContent.step_renamed (h : s.SameContent t)
    (memory : s.memory.map (.renamed rename) = t.memory) (lineNumber : Nat) (line : Text) :
    ((s.step clock number lineNumber line).renamed rename).untimed =
      (t.step clock' number lineNumber line).untimed := by
  simp only [step, Step.renamed, Step.untimed, h.environment, h.stack, memory, h.edges,
    h.structures]

theorem SameContent.completionStep_renamed (h : s.SameContent t)
    (memory : s.memory.map (.renamed rename) = t.memory) (output : Text) :
    ((s.completionStep clock number output).renamed rename).untimed =
      (t.completionStep clock' number output).untimed := by
  simp only [completionStep, Step.renamed, Step.untimed, h.environment, h.stack, memory, h.edges,
    h.structures]

end

end Sweep

namespace Trace

theorem sameContent_stateAt (run run' : Run) (code : Text) (k : Nat) :
    (stateAt run code k).SameContent (stateAt run' code k) := by
  apply stateAt_related run run' Sweep.SameContent
  case start => exact ⟨rfl, rfl, rfl, rfl, rfl⟩
  case enter =>
    intro s t edge lineNumber line same
    exact same.enter edge lineNumber line
  case leave =>
    intro s t line same
    exact same.leave line

/-- One renaming takes the objects of one run to those of the other, in every step. -/
theorem exists_renaming (run run' : Run) (code : Text) :
    ∃ rename : Address → Address, Function.Injective rename ∧
      ∀ k ≤ (visited code).length,
        (stateAt run code k).memory.map (.renamed rename) = (stateAt run' code k).memory := by
  have last_same := (sameContent_stateAt run run' code (visited code).length).contents
  obtain ⟨rename, renamed⟩ := exists_perm_map_eq
    (addresses_nodup run code (visited code).length)
    (addresses_nodup run' code (visited code).length)
    (by simpa using congrArg List.length last_same)
  refine ⟨rename, rename.injective, ?_⟩
  intro k hk
  -- the objects of a step are the first of those of the last step, in both runs as many
  have last := MemoryObject.map_renamed_eq last_same renamed
  have length_eq := congrArg List.length (sameContent_stateAt run run' code k).contents
  rw [List.length_map, List.length_map] at length_eq
  rw [List.prefix_iff_eq_take.1 (stateAt_memory_grows run code hk),
    List.prefix_iff_eq_take.1 (stateAt_memory_grows run' code hk), List.map_take, last, length_eq]

/-- Two traces of one snippet, step by step. -/
theorem forall₂_synthesize {R : Step → Step → Prop} {run run' : Run} {code : Text}
    {language language' : Language}
    (line : ∀ k item, (visited code)[k]? = some item →
      R ((stateAt run code k).step run.clock (k + 1) (item.1 + 1) item.2)
        ((stateAt run' code k).step run'.clock (k + 1) (item.1 + 1) item.2))
    (completion : ∀ k, k = (visited code).length →
      R ((stateAt run code k).completionStep run.clock (k + 1) language.cannedOutput)
        ((stateAt run' code k).completionStep run'.clock (k + 1) language'.cannedOutput)) :
    List.Forall₂ R (synthesize run code language) (synthesize run' code language') := by
  refine List.forall₂_iff_get.2 ⟨?_, ?_⟩
  · by_cases none : visited code = []
    · rw [synthesize_of_none none, synthesize_of_none none]
    · rw [length_synthesize none, length_synthesize none]
  · intro k hk hk'
    have second := List.getElem?_eq_getElem hk'
    rw [List.get_eq_getElem, List.get_eq_getElem]
    rcases step_cases (List.getElem?_eq_getElem hk) with ⟨item, found, eq⟩ | ⟨rfl, some_line, eq⟩
    · rw [getElem?_synthesize_line found] at second
      rw [eq, ← Option.some.inj second]
      exact line k item found
    · rw [getElem?_synthesize_end some_line] at second
      rw [eq, ← Option.some.inj second]
      exact completion _ rfl

/-- **A trace is the snippet's but for its addresses and times.**  In the traces of two runs
over one snippet, in any two languages, no two objects share an address and each keeps its
own.  One renaming of addresses, the same for all steps, takes the first trace to the
second, except for times and for the text of the output; and for that too if the language
is the same. -/
theorem synthesize_idempotent (run run' : Run) (code : Text) (language language' : Language) :
    (synthesize run code language).Addressed ∧ (synthesize run' code language').Addressed ∧
    ∃ rename : Address → Address, Function.Injective rename ∧
      (synthesize run code language).map (fun step => (step.renamed rename).muted) =
        (synthesize run' code language').map Step.muted ∧
      (synthesize run code language).map (fun step => (step.renamed rename).untimed) =
        (synthesize run' code language).map Step.untimed := by
  refine ⟨addressed_synthesize .., addressed_synthesize .., ?_⟩
  obtain ⟨rename, injective, memory⟩ := exists_renaming run run' code
  have same := sameContent_stateAt run run' code
  have inside {k : Nat} {item : Nat × Text} (found : (visited code)[k]? = some item) :
      k ≤ (visited code).length := Nat.le_of_lt (List.getElem?_eq_some_iff.1 found).1
  refine ⟨rename, injective, ?_, ?_⟩
  · rw [map_eq_map_iff_forall₂]
    apply forall₂_synthesize
    · intro k item found
      exact Step.muted_congr ((same k).step_renamed _ _ _ (memory k (inside found)) _ _)
    · intro k last
      -- one output is as good as another once it is muted
      have muted := Step.muted_congr ((same k).completionStep_renamed run.clock run'.clock (k + 1)
        (memory k (Nat.le_of_eq last)) [])
      exact muted
  · rw [map_eq_map_iff_forall₂]
    apply forall₂_synthesize
    · intro k item found
      exact (same k).step_renamed _ _ _ (memory k (inside found)) _ _
    · intro k last
      exact (same k).completionStep_renamed _ _ _ (memory k (Nat.le_of_eq last)) _

end Trace
end Walkthrough
