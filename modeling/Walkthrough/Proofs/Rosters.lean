import Mathlib.Data.List.Induction
import Walkthrough.Roster

/-!
# What a roster has

A roster that was filled from a list has its names where they occur first (`names_ofList`),
and its entries are among those of the list (`mem_entries_ofList`).
-/

namespace Walkthrough.Roster

variable {α : Type}

/-- Names are in the order in which they were first entered. -/
theorem names_ofList (entries : List (Text × α)) :
    (ofList entries).names = (entries.map Prod.fst).eraseDups := by
  induction entries using List.reverseRecOn with
  | nil => rfl
  | append_singleton entries entry ih =>
    have entered : ofList (entries ++ [entry]) = (ofList entries).enter entry.1 entry.2 :=
      List.foldl_append
    rw [entered, names_enter, ih, List.map_append, List.eraseDups_append]
    by_cases known : entry.1 ∈ entries.map Prod.fst
    · have none_left : [entry.1].removeAll (entries.map Prod.fst) = [] := by
        simpa [List.removeAll] using known
      rw [if_pos (List.mem_eraseDups.2 known), List.map_singleton, none_left, List.eraseDups_nil,
        List.append_nil]
    · have kept : [entry.1].removeAll (entries.map Prod.fst) = [entry.1] := by
        simpa [List.removeAll] using known
      rw [if_neg (mt List.mem_eraseDups.1 known), List.map_singleton, kept]
      rfl

theorem mem_enterEntry {name : Text} {x : α} {entries : List (Text × α)}
    {entry : Text × α} (h : entry ∈ enterEntry name x entries) :
    entry = (name, x) ∨ entry ∈ entries := by
  induction entries with
  | nil => exact .inl (List.mem_singleton.1 h)
  | cons first rest ih =>
    obtain ⟨other, y⟩ := first
    simp only [enterEntry] at h
    split at h
    · exact (List.mem_cons.1 h).imp_right (List.mem_cons_of_mem _)
    · rcases List.mem_cons.1 h with rfl | later
      · exact .inr List.mem_cons_self
      · exact (ih later).imp_right (List.mem_cons_of_mem _)

theorem mem_entries_ofList {entries : List (Text × α)} {entry : Text × α}
    (h : entry ∈ (ofList entries).entries) : entry ∈ entries := by
  induction entries using List.reverseRecOn with
  | nil => exact h
  | append_singleton entries last ih =>
    have entered : ofList (entries ++ [last]) = (ofList entries).enter last.1 last.2 :=
      List.foldl_append
    rw [entered] at h
    rcases mem_enterEntry h with rfl | earlier
    · exact List.mem_append_right _ List.mem_cons_self
    · exact List.mem_append_left _ (ih earlier)

/-- If all names are entered with one value, then no other one is in the roster. -/
theorem entries_ofList_map (names : List Text) (x : α) :
    (ofList (names.map fun name => (name, x))).entries =
      names.eraseDups.map fun name => (name, x) := by
  generalize hr : ofList (names.map fun name => (name, x)) = r
  have entered : r.names = names.eraseDups := by
    rw [← hr, names_ofList, List.map_map]
    exact congrArg List.eraseDups (List.map_id names)
  have same : ∀ entry ∈ r.entries, (entry.1, x) = entry := by
    intro entry mem
    rw [← hr] at mem
    obtain ⟨name, -, rfl⟩ := List.mem_map.1 (mem_entries_ofList mem)
    rfl
  calc r.entries
    _ = r.entries.map fun entry => (entry.1, x) := by
      rw [List.map_congr_left same, List.map_id']
    _ = r.names.map fun name => (name, x) := by
      rw [Roster.names, List.map_map]
      rfl
    _ = names.eraseDups.map fun name => (name, x) := by rw [entered]

end Walkthrough.Roster
