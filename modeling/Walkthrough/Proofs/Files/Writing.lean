import Walkthrough.Files.Disk
import Walkthrough.Proofs.Files.Tree

/-!
# Writing a file

A file that is written stands at the place to which its path leads, and every other place
keeps what stands there: `written_of_write?`.
-/

namespace Walkthrough

theorem Roster.lookup_enterEntry {κ α : Type} [BEq κ] [LawfulBEq κ] [DecidableEq κ] (name : κ)
    (x : α) (entries : List (κ × α)) (other : κ) :
    (enterEntry name x entries).lookup other =
      if other = name then some x else entries.lookup other := by
  induction entries with
  | nil => rw [enterEntry, lookup_cons_eq_ite]
  | cons entry rest ih =>
    obtain ⟨first, y⟩ := entry
    rw [enterEntry]
    by_cases here : name = first
    · subst here
      rw [if_pos rfl, lookup_cons_eq_ite, lookup_cons_eq_ite]
      split <;> rfl
    · rw [if_neg here, lookup_cons_eq_ite, lookup_cons_eq_ite, ih]
      by_cases same : other = name
      · subst same
        rw [if_neg here, if_pos rfl, if_pos rfl]
      · rw [if_neg same, if_neg same]

namespace Tree

/-- What stands at a place, without what is inside of it. -/
inductive Kind where
  | file (bytes : List UInt8)
  | directory
  | sealed
  | locked

def kind : Tree → Kind
  | .file bytes => .file bytes
  | .directory _ => .directory
  | .sealed => .sealed
  | .locked => .locked

/-- What stands at the place to which names lead. -/
def kindAt? (t : Tree) (names : List Name) : Option Kind := (t.at? names).map kind

theorem kindAt?_cons (entries : List (Name × Tree)) (name : Name) (names : List Name) :
    (directory entries).kindAt? (name :: names) =
      (entries.lookup name).bind (·.kindAt? names) := by
  rw [kindAt?, at?_cons, Option.map_bind]
  rfl

theorem isDirectoryAt_iff {t : Tree} {names : List Name} :
    t.isDirectoryAt names = true ↔ t.kindAt? names = some .directory := by
  unfold isDirectoryAt kindAt?
  cases t.at? names with
  | none => simp
  | some u => cases u <;> simp [entries?, kind]

theorem isSome_at?_iff {t : Tree} {names : List Name} :
    (t.at? names).isSome ↔ (t.kindAt? names).isSome := by
  rw [kindAt?, Option.isSome_map]

theorem at?_eq_file_iff {t : Tree} {names : List Name} {bytes : List UInt8} :
    t.at? names = some (.file bytes) ↔ t.kindAt? names = some (.file bytes) := by
  unfold kindAt?
  cases t.at? names with
  | none => simp
  | some u => cases u <;> simp [kind]

/-- Nothing stands below a file. -/
theorem kindAt?_file (bytes : List UInt8) (names : List Name) :
    (file bytes).kindAt? names = if names = [] then some (.file bytes) else none := by
  cases names <;> rfl

theorem canHoldFile_iff {t : Tree} {parents : List Name} {name : Name} :
    t.canHoldFile parents name = true ↔ t.kindAt? parents = some .directory ∧
      ∀ k, t.kindAt? (parents ++ [name]) = some k → ∃ old, k = .file old := by
  rw [canHoldFile, Bool.and_eq_true, isDirectoryAt_iff]
  apply and_congr_right
  intro _
  unfold kindAt?
  cases t.at? (parents ++ [name]) with
  | none => simp
  | some u => cases u <;> simp [kind]

/-- Nothing stands below a place for a file. -/
theorem kindAt?_append_cons {t : Tree} {names : List Name}
    (free : ∀ k, t.kindAt? names = some k → ∃ old, k = .file old) (next : Name)
    (rest : List Name) : t.kindAt? (names ++ next :: rest) = none := by
  unfold kindAt? at free ⊢
  rw [at?_append]
  cases found : t.at? names with
  | none => rfl
  | some u =>
    rw [found] at free
    obtain ⟨old, kind_eq⟩ := free u.kind rfl
    cases u with
    | file _ => rfl
    | directory | sealed | locked => cases kind_eq

theorem add_file_nil (bytes : List UInt8) (t : Tree) : add (.file bytes) [] t = .file bytes :=
  rfl

/-- A new file stands at its place, and all other places are as they were. -/
theorem kindAt?_add (bytes : List UInt8) {parents : List Name} {name : Name} {t : Tree}
    (isDirectory : t.kindAt? parents = some .directory)
    (free : ∀ k, t.kindAt? (parents ++ [name]) = some k → ∃ old, k = .file old)
    (other : List Name) :
    (add (.file bytes) (parents ++ [name]) t).kindAt? other =
      if other = parents ++ [name] then some (.file bytes) else t.kindAt? other := by
  induction parents generalizing t other with
  | nil =>
    cases t with
    | file | sealed | locked => cases isDirectory
    | directory entries =>
      rw [List.nil_append, add]
      cases other with
      | nil => rfl
      | cons first rest =>
        rw [kindAt?_cons, kindAt?_cons, Roster.lookup_enterEntry]
        by_cases same : first = name
        · subst same
          rw [if_pos rfl, Option.bind_some, add_file_nil, kindAt?_file]
          cases rest with
          | nil => simp
          | cons next rest =>
            have nothing := kindAt?_append_cons free next rest
            rw [List.nil_append, List.singleton_append, kindAt?_cons] at nothing
            simp [nothing]
        · simp [same, entries?]
  | cons parent parents ih =>
    cases t with
    | file | sealed | locked => cases isDirectory
    | directory entries =>
      rw [List.cons_append, kindAt?_cons] at free
      rw [kindAt?_cons] at isDirectory
      obtain ⟨child, found, inside⟩ := Option.bind_eq_some_iff.1 isDirectory
      rw [found] at free
      rw [List.cons_append, add]
      cases other with
      | nil => rfl
      | cons first rest =>
        rw [kindAt?_cons, kindAt?_cons, Roster.lookup_enterEntry]
        by_cases same : first = parent
        · subst same
          simp only [entries?, Option.getD_some, found, if_true, Option.bind_some, List.cons.injEq,
            true_and]
          exact ih inside free rest
        · simp [same, entries?]

/-! ## Paths -/

theorem locate?_append (t : Tree) (here : List Name) (parts rest : List Name) :
    t.locate? here (parts ++ rest) = (t.locate? here parts).bind (t.locate? · rest) := by
  induction parts generalizing here with
  | nil => rfl
  | cons part parts ih =>
    rw [List.cons_append, locate?, locate?]
    simp only [ih]
    split
    · rfl
    · split
      · rfl
      · split
        · rfl
        · split <;> rfl

/-- A path that leads somewhere leads to the same place when more can be found. -/
theorem locate?_of_extends {t t' : Tree}
    (directories : ∀ names, t.isDirectoryAt names = true → t'.isDirectoryAt names = true)
    (places : ∀ names, (t.at? names).isSome = true → (t'.at? names).isSome = true)
    {here parts names : List Name} (h : t.locate? here parts = some names) :
    t'.locate? here parts = some names := by
  induction parts generalizing here with
  | nil => exact h
  | cons part parts ih =>
    have inside : t.isDirectoryAt here = true := by
      by_contra outside
      simp [locate?, outside] at h
    rw [locate?, inside] at h
    rw [locate?, directories here inside]
    simp only [Bool.not_true, Bool.false_eq_true, if_false] at h ⊢
    by_cases void : Path.isVoid part = true
    · rw [if_pos void] at h ⊢
      exact ih h
    · rw [if_neg void] at h ⊢
      by_cases up : Path.isParent part = true
      · rw [if_pos up] at h ⊢
        exact ih h
      · rw [if_neg up] at h ⊢
        split at h
        · rw [if_pos (places _ ‹_›)]
          exact ih h
        · cases h

end Tree

namespace Disk

theorem exists_at?_of_resolve? {d : Disk} {u : Tree} {p : Path} (h : d.resolve? p = some u) :
    ∃ names, d.root.at? names = some u := by
  unfold resolve? at h
  split at h
  · cases h
  · split at h
    · exact ⟨_, h⟩
    · cases h

theorem resolve?_of_locate? {d : Disk} {p : Path} {names : List Name} (nonempty : p ≠ [])
    (leads : d.root.locate? (d.start p) p.parts = some names) :
    d.resolve? p = d.root.at? names := by
  rw [resolve?, List.isEmpty_eq_false_iff.2 nonempty, if_neg Bool.false_ne_true, leads]

/-- A disk after a file was written: its path leads to it, and at all other places stands what
stood there. -/
structure Written (d d' : Disk) (p : Path) (bytes : List UInt8) : Prop where
  leads : d'.resolve? p = some (.file bytes)
  others : ∃ names, d'.root.locate? (d'.start p) p.parts = some names ∧
    ∀ other, d'.root.kindAt? other =
      if other = names then some (.file bytes) else d.root.kindAt? other

/-- A file can be written where the path to its directory leads. -/
theorem exists_of_write? {d d' : Disk} {p : Path} {bytes : List UInt8}
    (h : d.write? p bytes = some d') :
    ∃ parents name, p.parts = p.parts.dropLast ++ [name] ∧ Path.isVoid name = false ∧
      Path.isParent name = false ∧ d.root.locate? (d.start p) p.parts.dropLast = some parents ∧
      d.root.canHoldFile parents name = true ∧
      d' = { d with root := Tree.add (.file bytes) (parents ++ [name]) d.root } := by
  unfold write? at h
  cases last : p.parts.getLast? with
  | none => simp [last] at h
  | some name =>
    cases located : d.root.locate? (d.start p) p.parts.dropLast with
    | none => simp [last, located] at h
    | some parents =>
      simp only [last, located, Option.ite_none_left_eq_some, Option.ite_none_right_eq_some,
        Option.some.injEq, Bool.or_eq_true, not_or, Bool.not_eq_true] at h
      obtain ⟨⟨not_void, not_parent⟩, holds, rfl⟩ := h
      have parts_eq := (List.dropLast_append_getLast? name last).symm
      exact ⟨parents, name, parts_eq, not_void, not_parent, rfl, holds, rfl⟩

theorem written_of_write? {d d' : Disk} {p : Path} {bytes : List UInt8}
    (h : d.write? p bytes = some d') : Written d d' p bytes := by
  obtain ⟨parents, name, parts_eq, not_void, not_parent, located, holds, rfl⟩ :=
    exists_of_write? h
  obtain ⟨isDirectory, free⟩ := Tree.canHoldFile_iff.1 holds
  have kinds := Tree.kindAt?_add bytes isDirectory free
  generalize Tree.add (.file bytes) (parents ++ [name]) d.root = root at *
  have directories (names : List Name) (inside : d.root.isDirectoryAt names = true) :
      root.isDirectoryAt names = true := by
    rw [Tree.isDirectoryAt_iff] at inside ⊢
    rw [kinds, if_neg, inside]
    rintro rfl
    obtain ⟨old, same⟩ := free _ inside
    cases same
  have places (names : List Name) (found : (d.root.at? names).isSome = true) :
      (root.at? names).isSome = true := by
    rw [Tree.isSome_at?_iff] at found ⊢
    rw [kinds]
    split
    · rfl
    · exact found
  have target : root.kindAt? (parents ++ [name]) = some (.file bytes) := by
    rw [kinds, if_pos rfl]
  have leads : root.locate? (d.start p) p.parts = some (parents ++ [name]) := by
    have inside := directories _ (Tree.isDirectoryAt_iff.2 isDirectory)
    have there := Tree.at?_eq_file_iff.2 target
    rw [parts_eq, Tree.locate?_append, Tree.locate?_of_extends directories places located,
      Option.bind_some]
    simp [Tree.locate?, inside, not_void, not_parent, there]
  constructor
  case leads =>
    have nonempty : p ≠ [] := by
      rintro rfl
      obtain rfl : [] = name := List.singleton_inj.1 parts_eq
      cases not_void
    exact (resolve?_of_locate? nonempty leads).trans (Tree.at?_eq_file_iff.2 target)
  case others => exact ⟨parents ++ [name], leads, kinds⟩

end Disk
end Walkthrough
