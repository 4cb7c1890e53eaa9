import Walkthrough.Text.Basic

/-!
# Rosters

Values under distinct names, in the order in which the names were first entered.
`names_enter` says that a known name keeps its place and a new one comes last.
-/

namespace Walkthrough

structure Roster (α : Type) where
  entries : List (Text × α)
  distinct : (entries.map Prod.fst).Nodup

namespace Roster

variable {α : Type}

def empty : Roster α := ⟨[], .nil⟩

def names (r : Roster α) : List Text := r.entries.map Prod.fst

section
variable {κ : Type} [DecidableEq κ]

def enterEntry (name : κ) (x : α) : List (κ × α) → List (κ × α)
  | [] => [(name, x)]
  | (other, y) :: rest =>
    if name = other then (name, x) :: rest else (other, y) :: enterEntry name x rest

variable [BEq κ] [LawfulBEq κ]

theorem map_fst_enterEntry (name : κ) (x : α) (entries : List (κ × α)) :
    (enterEntry name x entries).map Prod.fst =
      if name ∈ entries.map Prod.fst then entries.map Prod.fst
      else entries.map Prod.fst ++ [name] := by
  induction entries with
  | nil => simp [enterEntry]
  | cons entry rest ih =>
    obtain ⟨other, y⟩ := entry
    simp only [enterEntry]
    split
    · rename_i same
      subst same
      simp
    · rename_i differs
      simp only [List.map_cons, ih, List.mem_cons, differs, false_or]
      split <;> simp

theorem enterEntry_distinct {name : κ} {x : α} {entries : List (κ × α)}
    (h : (entries.map Prod.fst).Nodup) : ((enterEntry name x entries).map Prod.fst).Nodup := by
  rw [map_fst_enterEntry]
  split
  · exact h
  · rename_i new
    refine List.nodup_append.2 ⟨h, by simp, ?_⟩
    intro a ha b hb
    rw [List.mem_singleton.1 hb]
    rintro rfl
    exact new ha

end

/-- The roster with `x` under `name`: in place of what stood there, or else at the end. -/
def enter (r : Roster α) (name : Text) (x : α) : Roster α :=
  ⟨enterEntry name x r.entries, enterEntry_distinct r.distinct⟩

def ofList (entries : List (Text × α)) : Roster α :=
  entries.foldl (fun r (name, x) => r.enter name x) empty

theorem names_enter (r : Roster α) (name : Text) (x : α) :
    (r.enter name x).names = if name ∈ r.names then r.names else r.names ++ [name] :=
  map_fst_enterEntry name x r.entries

end Roster
end Walkthrough
