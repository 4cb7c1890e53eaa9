import Mathlib.Data.List.Nodup
import Walkthrough.Proofs.Dictionary
import Walkthrough.Service.Decoding

/-!
# Places in a value

A path leads into a value, by the names of members and the positions of items.  Putting
the members of all objects in order moves nothing to another place (`at?_sorted`); it
changes the order of the names alone (`increasing_names_sorted`, `names_sorted_perm`).
-/

namespace Walkthrough

namespace Json

/-! ## Paths -/

inductive Key where
  | member (name : Text)
  | item (index : Nat)

/-- A part of a value; of members with one name the last one counts. -/
def part? : Key → Json → Option Json
  | .member name, .object members => lastMember? name members
  | .item index, .array items => items[index]?
  | _, _ => none

/-- The part of a value that a path ends at. -/
def at? : List Key → Json → Option Json
  | [], j => some j
  | key :: path, j => (j.part? key).bind (at? path)

theorem part?_sorted (key : Key) (j : Json) : j.sorted.part? key = (j.part? key).map sorted := by
  cases key with
  | member name =>
    cases j with
    | object members =>
      have distinct := (Dictionary.ofList (sortedMembers members)).names_nodup
      calc (Json.object members).sorted.part? (.member name)
        _ = (Dictionary.ofList (sortedMembers members)).get? name := lookup_reverse distinct name
        _ = (members.reverse.lookup name).map sorted := by
          rw [Dictionary.get?_ofList, sortedMembers_eq_map, ← List.map_reverse, lookup_map]
    | _ => rfl
  | item index =>
    cases j with
    | array items =>
      rw [sorted, sortedItems_eq_map]
      exact List.getElem?_map
    | _ => rfl

/-- Every place in a value is one in the value with its members in order. -/
theorem at?_sorted (path : List Key) (j : Json) :
    j.sorted.at? path = (j.at? path).map sorted := by
  induction path generalizing j with
  | nil => rfl
  | cons key path ih =>
    rw [at?, at?, part?_sorted]
    cases j.part? key with
    | none => rfl
    | some part => exact ih part

theorem names_record_nodup {fields : List (String × Option Json)}
    (distinct : (fields.map Prod.fst).Nodup) :
    ((fields.filterMap fun (name, value) => value.map fun v => (name.toList, v)).map
      Prod.fst).Nodup := by
  rw [List.Nodup, List.pairwise_map] at distinct ⊢
  refine List.pairwise_filterMap.2 (distinct.imp ?_)
  intro first second differ a ha b hb same
  obtain ⟨_, -, rfl⟩ := Option.map_eq_some_iff.1 ha
  obtain ⟨_, -, rfl⟩ := Option.map_eq_some_iff.1 hb
  exact differ (String.toList_inj.1 same)

/-- A field of a record that has a value. -/
theorem part?_record {fields : List (String × Option Json)} (distinct : (fields.map Prod.fst).Nodup)
    {name : String} {value : Json} (h : (name, some value) ∈ fields) :
    (record fields).part? (.member name.toList) = some value := by
  have members_distinct := names_record_nodup distinct
  refine (lookup_reverse members_distinct name.toList).trans ?_
  refine (lookup_eq_some_iff_mem members_distinct).2 (List.mem_filterMap.2 ?_)
  exact ⟨(name, some value), h, rfl⟩

theorem at?_record {fields : List (String × Option Json)} (distinct : (fields.map Prod.fst).Nodup)
    {name : String} {value : Json} (h : (name, some value) ∈ fields) (path : List Key) :
    (record fields).at? (.member name.toList :: path) = value.at? path := by
  rw [at?, part?_record distinct h, Option.bind_some]

theorem at?_items {α : Type} (f : α → Json) (xs : List α) (n : Nat) (path : List Key) :
    (Json.array (xs.map f)).at? (.item n :: path) = xs[n]?.bind fun x => (f x).at? path := by
  rw [at?, part?, List.getElem?_map, Option.bind_map]
  rfl

theorem at?_item {α : Type} {f : α → Json} {xs : List α} {i : Nat} {x : α}
    (found : xs[i]? = some x) (path : List Key) :
    (Json.array (xs.map f)).at? (.item i :: path) = (f x).at? path := by
  rw [at?_items, found, Option.bind_some]

/-! ## Names -/

/-- The names of the members of an object, in their order. -/
def names : Json → List Text
  | .object members => members.map Prod.fst
  | _ => []

theorem increasing_names_sorted (j : Json) : j.sorted.names.Pairwise (Text.precedes · ·) := by
  cases j with
  | object members => exact (Dictionary.ofList (sortedMembers members)).increasing
  | _ => exact .nil

theorem names_sorted_perm {j : Json} (distinct : j.names.Nodup) : j.sorted.names.Perm j.names := by
  cases j with
  | object members =>
    have names : (sortedMembers members).map Prod.fst = members.map Prod.fst := by
      rw [sortedMembers_eq_map, List.map_map]
      rfl
    have kept : ((sortedMembers members).map Prod.fst).Nodup := by
      rw [names]
      exact distinct
    have perm := (Dictionary.entries_ofList_perm kept).map Prod.fst
    rwa [names] at perm
  | _ => exact .nil

/-- The names keep their order exactly if it is the increasing one. -/
theorem names_sorted_eq_iff {j : Json} (distinct : j.names.Nodup) :
    j.sorted.names = j.names ↔ j.names.Pairwise (Text.precedes · ·) := by
  constructor
  · intro same
    exact same ▸ increasing_names_sorted j
  · intro increasing
    refine List.Perm.eq_of_pairwise ?_ (increasing_names_sorted j) increasing
      (names_sorted_perm distinct)
    intro s t _ _ before after
    exact (Text.not_precedes_of_precedes before after).elim

end Json
end Walkthrough
