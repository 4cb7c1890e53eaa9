import Walkthrough.Text.Order

/-!
# Dictionaries

Values under names, in the order of the names.  The view of a dictionary is `get?`:
`get?_insert` says what an entry changes.
-/

namespace Walkthrough

structure Dictionary (α : Type) where
  entries : List (Text × α)
  increasing : (entries.map Prod.fst).Pairwise (Text.precedes · ·)

namespace Dictionary

variable {α : Type}

def empty : Dictionary α := ⟨[], .nil⟩

def names (d : Dictionary α) : List Text := d.entries.map Prod.fst

def get? (d : Dictionary α) (name : Text) : Option α := d.entries.lookup name

def isEmpty (d : Dictionary α) : Bool := d.entries.isEmpty

def insertEntry (name : Text) (x : α) : List (Text × α) → List (Text × α)
  | [] => [(name, x)]
  | (other, y) :: rest =>
    if Text.precedes name other then (name, x) :: (other, y) :: rest
    else if name = other then (name, x) :: rest
    else (other, y) :: insertEntry name x rest

theorem mem_names_insertEntry {name n : Text} {x : α} {entries : List (Text × α)} :
    n ∈ (insertEntry name x entries).map Prod.fst ↔ n = name ∨ n ∈ entries.map Prod.fst := by
  induction entries with
  | nil => simp [insertEntry]
  | cons entry rest ih =>
    obtain ⟨other, y⟩ := entry
    simp only [insertEntry]
    split
    · simp
    · split
      · rename_i same
        subst same
        simp
      · simp only [List.map_cons, List.mem_cons, ih]
        grind

theorem insertEntry_increasing {name : Text} {x : α} {entries : List (Text × α)}
    (h : (entries.map Prod.fst).Pairwise (Text.precedes · ·)) :
    ((insertEntry name x entries).map Prod.fst).Pairwise (Text.precedes · ·) := by
  induction entries with
  | nil => simp [insertEntry]
  | cons entry rest ih =>
    obtain ⟨other, y⟩ := entry
    simp only [List.map_cons, List.pairwise_cons] at h
    simp only [insertEntry]
    split
    · rename_i before
      simp only [List.map_cons, List.pairwise_cons]
      refine ⟨?_, h.1, h.2⟩
      intro n hn
      rcases List.mem_cons.1 hn with rfl | hn
      · exact before
      · exact Text.precedes_trans before (h.1 n hn)
    · split
      · rename_i same
        subst same
        exact List.pairwise_cons.2 h
      · rename_i notBefore differs
        refine List.pairwise_cons.2 ⟨?_, ih h.2⟩
        intro n hn
        rcases mem_names_insertEntry.1 hn with rfl | hn
        · rcases Text.precedes_trichotomous n other with before | same | after
          · exact absurd before notBefore
          · exact absurd same differs
          · exact after
        · exact h.1 n hn

/-- The dictionary with `x` under `name`, in place of what stood there. -/
def insert (d : Dictionary α) (name : Text) (x : α) : Dictionary α :=
  ⟨insertEntry name x d.entries, insertEntry_increasing d.increasing⟩

/-- Of entries with one name the last counts. -/
def ofList (entries : List (Text × α)) : Dictionary α :=
  entries.foldl (fun d (name, x) => d.insert name x) empty

theorem get?_insert (d : Dictionary α) (name n : Text) (x : α) :
    (d.insert name x).get? n = if n = name then some x else d.get? n := by
  obtain ⟨entries, increasing⟩ := d
  simp only [insert, get?]
  induction entries with
  | nil => simp only [insertEntry, List.lookup_cons, List.lookup_nil]; grind
  | cons entry rest ih =>
    obtain ⟨other, y⟩ := entry
    simp only [List.map_cons, List.pairwise_cons] at increasing
    have ih := ih increasing.2
    simp only [insertEntry]
    split
    · simp only [List.lookup_cons]
      grind
    · split
      · rename_i same
        subst same
        simp only [List.lookup_cons]
        grind
      · simp only [List.lookup_cons]
        grind

theorem isSome_get?_iff {d : Dictionary α} {name : Text} :
    (d.get? name).isSome = true ↔ name ∈ d.names := by
  simp only [get?, names, List.lookup_isSome_iff, beq_iff_eq, List.mem_map]
  constructor
  · rintro ⟨entry, mem, rfl⟩
    exact ⟨entry, mem, rfl⟩
  · rintro ⟨entry, mem, rfl⟩
    exact ⟨entry, mem, rfl⟩

theorem mem_names_insert {d : Dictionary α} {name n : Text} {x : α} :
    n ∈ (d.insert name x).names ↔ n = name ∨ n ∈ d.names :=
  mem_names_insertEntry

end Dictionary
end Walkthrough
