import Walkthrough.Proofs.Json.Spacing
import Walkthrough.Proofs.Text.Digits

/-!
# A text has one value

No two values have the same indented text (`eq_of_writeIndented_eq`): the text is read back as
the document of the value, and escapes lose nothing.  What values are made of is not lost
either, neither numbers (`ofNat_injective`, `ofInt_injective`) nor the fields of a record,
as long as their names are known (`record_injective`).
-/

namespace Walkthrough

/-- Lists are equal if a function takes them to one list and tells their members apart. -/
theorem eq_of_map_eq {α β : Type} {f : α → β} {xs ys : List α}
    (inj : ∀ x ∈ xs, ∀ y ∈ ys, f x = f y → x = y) (same : xs.map f = ys.map f) : xs = ys := by
  induction xs generalizing ys with
  | nil => exact (List.map_eq_nil_iff.1 same.symm).symm
  | cons x xs ih =>
    obtain ⟨y, ys, rfl, first, rest⟩ := List.map_eq_cons_iff.1 same.symm
    have head := inj x List.mem_cons_self y List.mem_cons_self first.symm
    have tail := ih (fun a ha b hb =>
      inj a (List.mem_cons_of_mem x ha) b (List.mem_cons_of_mem y hb)) rest.symm
    rw [head, tail]

namespace Json

theorem escape_injective : Function.Injective escape := by
  intro s t same
  have read := congrArg unescape? same
  rwa [unescape?_escape, unescape?_escape, Option.some.injEq] at read

theorem document_injective : Function.Injective document := by
  intro j
  induction j using Json.induction with
  | null =>
    intro j' same
    cases j' <;> first | rfl | cases same
  | bool b =>
    intro j' same
    cases j' <;> first | cases same; rfl | cases same
  | number literal =>
    intro j' same
    cases j' <;> first | cases same; rfl | cases same
  | string t =>
    intro j' same
    cases j' with
    | string t' =>
      simp only [document, Document.string.injEq] at same
      rw [escape_injective same]
    | _ => cases same
  | array items ih =>
    intro j' same
    cases j' with
    | array items' =>
      simp only [document, itemDocuments_eq_map, Document.array.injEq] at same
      rw [eq_of_map_eq (fun item mem other _ => @ih item mem other) same]
    | _ => cases same
  | object members ih =>
    intro j' same
    cases j' with
    | object members' =>
      simp only [document, memberDocuments_eq_map, Document.object.injEq] at same
      refine congrArg object (eq_of_map_eq (fun member mem other _ equal => ?_) same)
      rw [Prod.mk.injEq] at equal
      exact Prod.ext (escape_injective equal.1) (ih member mem equal.2)
    | _ => cases same

theorem eq_of_writeIndented_eq {j j' : Json} (standard : ∀ token ∈ j.tokens, token.Standard)
    (standard' : ∀ token ∈ j'.tokens, token.Standard)
    (same : j.writeIndented = j'.writeIndented) : j = j' := by
  have read := Document.read?_writeIndented standard
  rw [same, Document.read?_writeIndented standard', Option.some.injEq] at read
  exact document_injective read.symm

/-! ## Parts of a value -/

theorem ofNat_injective : Function.Injective ofNat :=
  fun _ _ same => Text.ofNat_injective (number.inj same)

theorem ofInt_injective : Function.Injective ofInt :=
  fun _ _ same => Text.ofInt_injective (number.inj same)

theorem string_injective : Function.Injective string :=
  fun _ _ => string.inj

theorem bool_injective : Function.Injective bool :=
  fun _ _ => bool.inj

theorem strings_injective : Function.Injective strings :=
  fun _ _ same => List.map_injective_iff.2 string_injective (array.inj same)

/-- A record has no members but its fields. -/
theorem mem_names_of_mem_members {fields : List (String × Option Json)} {name : String} {v : Json}
    (h : (name.toList, v) ∈
      fields.filterMap fun (name, value) => value.map fun v => (name.toList, v)) :
    name ∈ fields.map Prod.fst := by
  obtain ⟨⟨other, value⟩, inside, found⟩ := List.mem_filterMap.1 h
  obtain ⟨w, -, equal⟩ := Option.map_eq_some_iff.1 found
  obtain rfl := String.toList_inj.1 (Prod.mk.inj equal).1
  exact List.mem_map_of_mem inside

/-- Records with the same fields in the same order have the same values, missing ones too. -/
theorem record_injective {fields fields' : List (String × Option Json)}
    (same : record fields = record fields') (names : fields.map Prod.fst = fields'.map Prod.fst)
    (distinct : (fields.map Prod.fst).Nodup) : fields = fields' := by
  have members := object.inj same
  clear same
  induction fields generalizing fields' with
  | nil => exact (List.map_eq_nil_iff.1 names.symm).symm
  | cons field rest ih =>
    obtain ⟨name, value⟩ := field
    obtain ⟨⟨other, value'⟩, rest', rfl, equal, rest_names⟩ := List.map_eq_cons_iff.1 names.symm
    obtain rfl : other = name := equal
    obtain ⟨new, distinct⟩ := List.nodup_cons.1 distinct
    have ih := ih rest_names.symm distinct
    -- a field that one record lacks is not among the later fields of the other one
    cases value with
    | none =>
      cases value' with
      | none => rw [ih members]
      | some v =>
        refine absurd (mem_names_of_mem_members (v := v) ?_) new
        exact members ▸ List.mem_cons_self
    | some v =>
      cases value' with
      | none =>
        refine absurd (mem_names_of_mem_members (v := v) ?_) (rest_names ▸ new)
        exact members ▸ List.mem_cons_self
      | some v' =>
        obtain ⟨first, others⟩ := List.cons.inj members
        rw [(Prod.mk.inj first).2, ih others]

end Json
end Walkthrough
