import Mathlib.Data.List.Forall2
import Walkthrough.Proofs.Json.Literals
import Walkthrough.Proofs.Json.Paths
import Walkthrough.Proofs.Json.Reading

/-!
# Values up to the order of members

A value whose objects have no name twice keeps all its members when they are put in order:
the document of the one is that of the other with the members of each object in another
order (`WellFormed.reordered`).
-/

namespace Walkthrough.Json

/-- A value with whole numbers, no object of which has a name twice. -/
inductive WellFormed : Json → Prop where
  | null : WellFormed .null
  | bool (b : Bool) : WellFormed (.bool b)
  | number {literal : Text} {l : NumberLiteral}
      (whole : NumberLiteral.take? literal = some (l, [])) : WellFormed (.number literal)
  | string (t : Text) : WellFormed (.string t)
  | array {items : List Json} (h : ∀ item ∈ items, WellFormed item) : WellFormed (.array items)
  | object {members : List (Text × Json)} (distinct : (members.map Prod.fst).Nodup)
      (h : ∀ member ∈ members, WellFormed member.2) : WellFormed (.object members)

namespace Document

/-- No object of a document has a name twice, however the name is written. -/
inductive DistinctNames : Document → Prop where
  | null : DistinctNames .null
  | bool (b : Bool) : DistinctNames (.bool b)
  | number (literal : Text) : DistinctNames (.number literal)
  | string (body : Text) : DistinctNames (.string body)
  | array {items : List Document} (h : ∀ item ∈ items, DistinctNames item) :
      DistinctNames (.array items)
  | object {members : List (Text × Document)}
      (distinct : (members.map fun member => unescape? member.1).Nodup)
      (h : ∀ member ∈ members, DistinctNames member.2) : DistinctNames (.object members)

/-- Two documents that differ in the order of members alone, in any of their objects. -/
inductive Reordered : Document → Document → Prop where
  | null : Reordered .null .null
  | bool (b : Bool) : Reordered (.bool b) (.bool b)
  | number (literal : Text) : Reordered (.number literal) (.number literal)
  | string (body : Text) : Reordered (.string body) (.string body)
  | array {items items' : List Document} (h : List.Forall₂ Reordered items items') :
      Reordered (.array items) (.array items')
  | object {members middle members' : List (Text × Document)}
      (names : members.map Prod.fst = middle.map Prod.fst)
      (values : List.Forall₂ Reordered (members.map Prod.snd) (middle.map Prod.snd))
      (perm : middle.Perm members') : Reordered (.object members) (.object members')

end Document

/-! ## Members in order -/

section
variable {j : Json} (h : j.WellFormed)
include h

theorem WellFormed.standard : ∀ token ∈ j.tokens, token.Standard := by
  induction h with
  | null => exact List.forall_mem_singleton.2 (.fixed (by decide))
  | bool b => exact List.forall_mem_singleton.2 (.fixed (by cases b <;> decide))
  | number whole => exact List.forall_mem_singleton.2 (.number whole)
  | string t => exact List.forall_mem_singleton.2 (.string t)
  | array _ ih => exact standard_array ih
  | object _ _ ih => exact standard_object ih

theorem WellFormed.sorted : j.sorted.WellFormed := by
  induction h with
  | null => exact .null
  | bool b => exact .bool b
  | number whole => exact .number whole
  | string t => exact .string t
  | array _ ih =>
    rw [Json.sorted, sortedItems_eq_map]
    exact .array (List.forall_mem_map.2 ih)
  | object _ _ ih =>
    refine .object (Dictionary.ofList _).names_nodup fun member mem => ?_
    rw [sortedMembers_eq_map] at mem
    obtain ⟨source, inside, rfl⟩ := List.mem_map.1 (Dictionary.mem_entries_ofList mem)
    exact ih source inside

theorem WellFormed.distinctNames : j.document.DistinctNames := by
  induction h with
  | null => exact .null
  | bool b => exact .bool b
  | number => exact .number _
  | string t => exact .string _
  | array _ ih =>
    rw [document, itemDocuments_eq_map]
    exact .array (List.forall_mem_map.2 ih)
  | @object members distinct _ ih =>
    have names : (memberDocuments members).map (fun member => unescape? member.1) =
        (members.map Prod.fst).map some := by
      simp only [memberDocuments_eq_map, List.map_map, Function.comp_def, unescape?_escape]
    refine .object (names ▸ distinct.map fun _ _ => Option.some.inj) ?_
    rw [memberDocuments_eq_map]
    exact List.forall_mem_map.2 ih

/-- Members in another order are all that putting them in order changes. -/
theorem WellFormed.reordered : j.document.Reordered j.sorted.document := by
  induction h with
  | null => exact .null
  | bool b => exact .bool b
  | number => exact .number _
  | string t => exact .string _
  | array _ ih =>
    rw [document, Json.sorted, document, itemDocuments_eq_map, itemDocuments_eq_map,
      sortedItems_eq_map]
    refine .array ?_
    rw [List.map_map, List.forall₂_map_left_iff, List.forall₂_map_right_iff]
    exact List.forall₂_same.2 ih
  | @object members distinct _ ih =>
    have kept : ((sortedMembers members).map Prod.fst).Nodup := by
      rw [sortedMembers_eq_map, List.map_map]
      exact distinct
    have names : (memberDocuments members).map Prod.fst =
        (memberDocuments (sortedMembers members)).map Prod.fst := by
      rw [memberDocuments_eq_map, memberDocuments_eq_map, sortedMembers_eq_map, List.map_map,
        List.map_map, List.map_map]
      rfl
    have values : List.Forall₂ Document.Reordered ((memberDocuments members).map Prod.snd)
        ((memberDocuments (sortedMembers members)).map Prod.snd) := by
      rw [memberDocuments_eq_map, memberDocuments_eq_map, sortedMembers_eq_map, List.map_map,
        List.map_map, List.map_map, List.forall₂_map_left_iff, List.forall₂_map_right_iff]
      exact List.forall₂_same.2 ih
    have perm : (memberDocuments (sortedMembers members)).Perm
        (memberDocuments (Dictionary.ofList (sortedMembers members)).entries) := by
      rw [memberDocuments_eq_map, memberDocuments_eq_map]
      exact (Dictionary.entries_ofList_perm kept).symm.map _
    exact .object names values perm

end

/-- A value without containers that can be read. -/
theorem Readable.wellFormed {j : Json} (h : Readable 0 j) : j.WellFormed := by
  cases h with
  | null => exact .null
  | bool _ b => exact .bool b
  | number _ whole _ => exact .number whole
  | string _ t => exact .string t

theorem wellFormed_record {fields : List (String × Option Json)}
    (distinct : (fields.map Prod.fst).Nodup)
    (h : ∀ field ∈ fields, ∀ value ∈ field.2, WellFormed value) : (record fields).WellFormed := by
  refine .object (names_record_nodup distinct) fun member mem => ?_
  obtain ⟨field, inside, found⟩ := List.mem_filterMap.1 mem
  obtain ⟨value, present, rfl⟩ := Option.map_eq_some_iff.1 found
  exact h field inside value present

theorem wellFormed_ofNat (n : Nat) : (ofNat n).WellFormed := by
  have whole := NumberLiteral.take?_text (NumberLiteral.wellFormed_ofNat n)
  simp only [NumberLiteral.text, List.nil_append, List.append_nil] at whole
  exact .number whole

theorem wellFormed_strings (ts : List Text) : (strings ts).WellFormed :=
  .array (List.forall_mem_map.2 fun t _ => .string t)

end Walkthrough.Json
