import Walkthrough.Files.Tree
import Walkthrough.Proofs.Dictionary
import Walkthrough.Proofs.Files.Path

/-!
# The files of a tree

In a tree whose directories have no name twice, names lead to one place.  `files` lists all
files that can be read with the names that lead to them (`mem_files`), each once
(`files_nodup`), and the order of the entries in any directory is the order of the list at most
(`files_perm`).
-/

namespace Walkthrough.Tree

/-- Every directory has proper names in it, none of them twice. -/
inductive WellFormed : Tree → Prop where
  | file (bytes : List UInt8) : WellFormed (.file bytes)
  | directory {entries : List (Name × Tree)} (names : ∀ entry ∈ entries, Path.IsName entry.1)
      (distinct : (entries.map Prod.fst).Nodup) (below : ∀ entry ∈ entries, WellFormed entry.2) :
      WellFormed (.directory entries)
  | sealed : WellFormed .sealed
  | locked : WellFormed .locked

/-- Every directory can be read. -/
inductive IsReadable : Tree → Prop where
  | file (bytes : List UInt8) : IsReadable (.file bytes)
  | directory {entries : List (Name × Tree)} (below : ∀ entry ∈ entries, IsReadable entry.2) :
      IsReadable (.directory entries)
  | sealed : IsReadable .sealed

@[simp] theorem wellFormed_file (bytes : List UInt8) : (file bytes).WellFormed :=
  .file bytes

@[simp] theorem isReadable_file (bytes : List UInt8) : (file bytes).IsReadable :=
  .file bytes

@[simp] theorem wellFormed_sealed : sealed.WellFormed :=
  .sealed

@[simp] theorem isReadable_sealed : sealed.IsReadable :=
  .sealed

theorem wellFormed_directory_iff {entries : List (Name × Tree)} :
    (directory entries).WellFormed ↔ (∀ entry ∈ entries, Path.IsName entry.1) ∧
      (entries.map Prod.fst).Nodup ∧ ∀ entry ∈ entries, entry.2.WellFormed := by
  constructor
  · rintro ⟨⟩
    exact ⟨‹_›, ‹_›, ‹_›⟩
  · rintro ⟨names, distinct, below⟩
    exact .directory names distinct below

theorem isReadable_directory_iff {entries : List (Name × Tree)} :
    (directory entries).IsReadable ↔ ∀ entry ∈ entries, entry.2.IsReadable := by
  constructor
  · rintro ⟨⟩
    assumption
  · exact .directory

/-- One tree is the other but for the order of the entries in its directories. -/
inductive Reordered : Tree → Tree → Prop where
  | refl (t : Tree) : Reordered t t
  | listed {entries entries' : List (Name × Tree)} (h : entries.Perm entries') :
      Reordered (.directory entries) (.directory entries')
  | inside (before : List (Name × Tree)) (name : Name) {t t' : Tree} (h : Reordered t t')
      (after : List (Name × Tree)) :
      Reordered (.directory (before ++ (name, t) :: after))
        (.directory (before ++ (name, t') :: after))
  | trans {t t' t'' : Tree} (h : Reordered t t') (h' : Reordered t' t'') : Reordered t t''

/-! ## What names lead to -/

@[simp] theorem at?_nil (t : Tree) : t.at? [] = some t := by
  cases t <;> rfl

theorem at?_cons (entries : List (Name × Tree)) (name : Name) (names : List Name) :
    (directory entries).at? (name :: names) = (entries.lookup name).bind (·.at? names) := by
  rw [at?]
  cases entries.lookup name <;> rfl

theorem at?_cons_of_file (bytes : List UInt8) (name : Name) (names : List Name) :
    (file bytes).at? (name :: names) = none :=
  rfl

theorem exists_of_at?_cons {t u : Tree} {name : Name} {names : List Name}
    (h : t.at? (name :: names) = some u) :
    ∃ entries child, t = .directory entries ∧ entries.lookup name = some child ∧
      child.at? names = some u := by
  cases t with
  | file | sealed | locked => cases h
  | directory entries =>
    rw [at?_cons] at h
    obtain ⟨child, found, leads⟩ := Option.bind_eq_some_iff.1 h
    exact ⟨entries, child, rfl, found, leads⟩

theorem WellFormed.isName {t : Tree} (h : t.WellFormed) {names : List Name} {u : Tree}
    (found : t.at? names = some u) : ∀ name ∈ names, Path.IsName name := by
  induction h generalizing names with
  | file | sealed | locked =>
    cases names with
    | nil => exact List.forall_mem_nil _
    | cons name names => cases found
  | directory proper distinct _ ih =>
    cases names with
    | nil => exact List.forall_mem_nil _
    | cons name names =>
      rw [at?_cons] at found
      obtain ⟨child, entry, leads⟩ := Option.bind_eq_some_iff.1 found
      have mem := (lookup_eq_some_iff_mem distinct).1 entry
      exact List.forall_mem_cons.2 ⟨proper _ mem, ih _ mem leads⟩

theorem WellFormed.at? {t : Tree} (h : t.WellFormed) {names : List Name} {u : Tree}
    (found : t.at? names = some u) : u.WellFormed := by
  induction names generalizing t with
  | nil =>
    obtain rfl := Option.some.inj ((at?_nil t).symm.trans found)
    exact h
  | cons name names ih =>
    obtain ⟨entries, child, rfl, entry, leads⟩ := exists_of_at?_cons found
    obtain ⟨-, distinct, below⟩ := wellFormed_directory_iff.1 h
    exact ih (below _ ((lookup_eq_some_iff_mem distinct).1 entry)) leads

/-! ## All files -/

mutual
/-- All files that can be read, with the names that lead to them. -/
def files : Tree → List (List Name × List UInt8)
  | .file bytes => [([], bytes)]
  | .directory entries => filesIn entries
  | .sealed | .locked => []

def filesIn : List (Name × Tree) → List (List Name × List UInt8)
  | [] => []
  | (name, t) :: rest =>
    t.files.map (fun (names, bytes) => (name :: names, bytes)) ++ filesIn rest
end

theorem filesIn_eq_flatMap (entries : List (Name × Tree)) :
    filesIn entries = entries.flatMap fun entry =>
      entry.2.files.map fun (names, bytes) => (entry.1 :: names, bytes) := by
  induction entries with
  | nil => rfl
  | cons entry rest ih => rw [List.flatMap_cons, ← ih, filesIn]

theorem mem_files {t : Tree} (h : t.WellFormed) {names : List Name} {bytes : List UInt8} :
    (names, bytes) ∈ t.files ↔ t.at? names = some (.file bytes) := by
  induction h generalizing names with
  | file content =>
    cases names with
    | nil => simp [files, eq_comm]
    | cons name names => simp [files, at?_cons_of_file]
  | sealed | locked =>
    cases names with
    | nil => simp [files]
    | cons name names => simp [files, at?]
  | @directory entries proper distinct _ ih =>
    rw [files, filesIn_eq_flatMap, List.mem_flatMap]
    cases names with
    | nil => simp
    | cons name names =>
      rw [at?_cons, Option.bind_eq_some_iff]
      constructor
      · rintro ⟨entry, mem, listed⟩
        obtain ⟨⟨names', bytes'⟩, inside, same⟩ := List.mem_map.1 listed
        cases same
        exact ⟨entry.2, (lookup_eq_some_iff_mem distinct).2 mem, (ih entry mem).1 inside⟩
      · rintro ⟨child, found, leads⟩
        have mem := (lookup_eq_some_iff_mem distinct).1 found
        exact ⟨_, mem, List.mem_map.2 ⟨(names, bytes), (ih _ mem).2 leads, rfl⟩⟩

theorem files_nodup {t : Tree} (h : t.WellFormed) : (t.files.map Prod.fst).Nodup := by
  induction h with
  | file content => exact List.nodup_singleton _
  | sealed | locked => exact List.nodup_nil
  | @directory entries proper distinct _ ih =>
    rw [files, filesIn_eq_flatMap, List.map_flatMap, List.nodup_flatMap]
    have first (entry : Name × Tree) :
        ((entry.2.files.map fun (names, bytes) => (entry.1 :: names, bytes)).map Prod.fst) =
          (entry.2.files.map Prod.fst).map (entry.1 :: ·) := by
      simp only [List.map_map, Function.comp_def]
    constructor
    · intro entry mem
      rw [first]
      exact (ih entry mem).map (List.cons_injective)
    · rw [List.nodup_iff_pairwise_ne, List.pairwise_map] at distinct
      refine distinct.imp ?_
      intro entry other differs
      rw [Function.onFun_apply, first, first, List.disjoint_left]
      intro names mine others
      obtain ⟨_, -, rfl⟩ := List.mem_map.1 mine
      obtain ⟨_, -, same⟩ := List.mem_map.1 others
      exact differs (List.cons.inj same).1.symm

/-! ## The order of entries -/

theorem files_perm {t t' : Tree} (h : Reordered t t') : t.files.Perm t'.files := by
  induction h with
  | refl t => exact .refl _
  | listed h =>
    simp only [files, filesIn_eq_flatMap]
    exact h.flatMap_right _
  | inside before name _ after ih =>
    simp only [files, filesIn_eq_flatMap, List.flatMap_append, List.flatMap_cons]
    exact .append_left _ (.append_right _ (ih.map _))
  | trans _ _ ih ih' => exact ih.trans ih'

theorem IsReadable.reordered {t t' : Tree} (readable : t.IsReadable) (h : Reordered t t') :
    t'.IsReadable := by
  induction h with
  | refl t => exact readable
  | listed h =>
    obtain _ | below := readable
    exact .directory fun entry mem => below entry (h.mem_iff.2 mem)
  | inside before name _ after ih =>
    obtain _ | below := readable
    rw [List.forall_mem_append, List.forall_mem_cons] at below
    obtain ⟨earlier, here, later⟩ := below
    apply IsReadable.directory
    rw [List.forall_mem_append, List.forall_mem_cons]
    exact ⟨earlier, ih here, later⟩
  | trans _ _ ih ih' => exact ih' (ih readable)

end Walkthrough.Tree
