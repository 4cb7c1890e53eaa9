import Mathlib.Data.List.Induction
import Mathlib.Data.List.Nodup
import Walkthrough.Dictionary

/-!
# The entries of a dictionary

Among entries of distinct names each is found under its own (`lookup_eq_some_iff_mem`).  A
dictionary has no name twice (`names_nodup`), and its entries are among those that were
entered (`mem_entries_ofList`), the last one under each name (`get?_ofList`).  What it has
under each name is all there is to it (`ext_get?`), so entries under two names may come in
either order (`insert_comm`).
-/

namespace Walkthrough

/-! ## Finding an entry -/

section
variable {κ α : Type} [BEq κ] [LawfulBEq κ]

theorem lookup_cons_eq_ite [DecidableEq κ] (name other : κ) (x : α) (entries : List (κ × α)) :
    List.lookup name ((other, x) :: entries) =
      if name = other then some x else entries.lookup name := by
  rw [List.lookup_cons]
  by_cases same : name = other
  · rw [if_pos same, beq_iff_eq.2 same]
  · rw [if_neg same, beq_eq_false_iff_ne.2 same]

variable {entries : List (κ × α)} (distinct : (entries.map Prod.fst).Nodup)
include distinct

theorem lookup_eq_some_iff_mem {name : κ} {x : α} :
    entries.lookup name = some x ↔ (name, x) ∈ entries := by
  constructor
  · intro found
    obtain ⟨before, after, split, -⟩ := List.lookup_eq_some_iff.1 found
    rw [split]
    exact List.mem_append_right before List.mem_cons_self
  · intro h
    obtain ⟨before, after, split⟩ := List.append_of_mem h
    rw [split, List.map_append, List.map_cons] at distinct
    refine List.lookup_eq_some_iff.2 ⟨before, after, split, ?_⟩
    intro entry earlier
    rw [bne_iff_ne]
    rintro rfl
    exact List.disjoint_of_nodup_append distinct (List.mem_map_of_mem earlier)
      List.mem_cons_self

theorem lookup_reverse (name : κ) : entries.reverse.lookup name = entries.lookup name := by
  have reversed : (entries.reverse.map Prod.fst).Nodup := by
    rwa [List.map_reverse, List.nodup_reverse]
  apply Option.ext
  intro x
  rw [lookup_eq_some_iff_mem reversed, lookup_eq_some_iff_mem distinct, List.mem_reverse]

end

theorem lookup_map {α β : Type} (f : α → β) (entries : List (Text × α)) (name : Text) :
    (entries.map fun (n, x) => (n, f x)).lookup name = (entries.lookup name).map f := by
  induction entries with
  | nil => rfl
  | cons entry entries ih =>
    obtain ⟨other, x⟩ := entry
    rw [List.map_cons, lookup_cons_eq_ite, lookup_cons_eq_ite, ih]
    split <;> rfl

theorem Text.not_precedes_of_precedes {s t : Text} (before : precedes s t = true) :
    ¬ precedes t s = true := by
  intro after
  have circle := precedes_trans before after
  rw [precedes_irrefl] at circle
  cases circle

namespace Dictionary

variable {α : Type}

theorem names_nodup (d : Dictionary α) : d.names.Nodup := by
  refine d.increasing.imp ?_
  rintro s t before rfl
  rw [Text.precedes_irrefl] at before
  cases before

theorem ofList_concat (entries : List (Text × α)) (name : Text) (x : α) :
    ofList (entries ++ [(name, x)]) = (ofList entries).insert name x :=
  List.foldl_append

/-- Of entries with one name the last one is found. -/
theorem get?_ofList (entries : List (Text × α)) (name : Text) :
    (ofList entries).get? name = entries.reverse.lookup name := by
  induction entries using List.reverseRecOn with
  | nil => rfl
  | append_singleton entries entry ih =>
    obtain ⟨other, x⟩ := entry
    rw [ofList_concat, get?_insert, ih, List.reverse_concat, lookup_cons_eq_ite]

theorem mem_names_ofList {entries : List (Text × α)} {name : Text} :
    name ∈ (ofList entries).names ↔ name ∈ entries.map Prod.fst := by
  induction entries using List.reverseRecOn with
  | nil => rfl
  | append_singleton entries entry ih =>
    obtain ⟨other, x⟩ := entry
    rw [ofList_concat, mem_names_insert, ih, List.map_append, List.mem_append, List.map_singleton,
      List.mem_singleton, or_comm]

theorem isEmpty_ofList_iff {entries : List (Text × α)} :
    (ofList entries).isEmpty = true ↔ entries = [] := by
  rw [isEmpty, List.isEmpty_iff]
  constructor
  · intro nothing
    apply List.map_eq_nil_iff.1
    apply List.eq_nil_iff_forall_not_mem.2
    intro name entered
    have mem : name ∈ (ofList entries).entries.map Prod.fst := mem_names_ofList.2 entered
    rw [nothing] at mem
    cases mem
  · rintro rfl
    rfl

/-! ## Entries -/

theorem mem_insertEntry {name : Text} {x : α} {entries : List (Text × α)} {entry : Text × α}
    (h : entry ∈ insertEntry name x entries) : entry = (name, x) ∨ entry ∈ entries := by
  induction entries with
  | nil => exact .inl (List.mem_singleton.1 h)
  | cons first rest ih =>
    obtain ⟨other, y⟩ := first
    simp only [insertEntry] at h
    split at h
    · exact List.mem_cons.1 h
    · split at h
      · exact (List.mem_cons.1 h).imp_right (List.mem_cons_of_mem _)
      · rcases List.mem_cons.1 h with rfl | later
        · exact .inr List.mem_cons_self
        · exact (ih later).imp_right (List.mem_cons_of_mem _)

theorem mem_entries_insert {d : Dictionary α} {name : Text} {x : α} {entry : Text × α}
    (h : entry ∈ (d.insert name x).entries) : entry = (name, x) ∨ entry ∈ d.entries :=
  mem_insertEntry h

theorem mem_entries_ofList {entries : List (Text × α)} {entry : Text × α}
    (h : entry ∈ (ofList entries).entries) : entry ∈ entries := by
  induction entries using List.reverseRecOn with
  | nil => exact h
  | append_singleton entries last ih =>
    rw [ofList_concat] at h
    rcases mem_entries_insert h with rfl | earlier
    · exact List.mem_append_right _ List.mem_cons_self
    · exact List.mem_append_left _ (ih earlier)

theorem mem_entries_of_get? {d : Dictionary α} {name : Text} {x : α} (h : d.get? name = some x) :
    (name, x) ∈ d.entries :=
  (lookup_eq_some_iff_mem d.names_nodup).1 h

/-- Entries without a repeated name are all kept. -/
theorem entries_ofList_perm {entries : List (Text × α)}
    (distinct : (entries.map Prod.fst).Nodup) : (ofList entries).entries.Perm entries := by
  have sorted_distinct := (ofList entries).names_nodup
  refine (List.perm_ext_iff_of_nodup (.of_map Prod.fst sorted_distinct)
    (.of_map Prod.fst distinct)).2 fun entry => ⟨mem_entries_ofList, fun mem => ?_⟩
  apply mem_entries_of_get?
  rw [get?_ofList, lookup_reverse distinct]
  exact (lookup_eq_some_iff_mem distinct).2 mem

/-- A dictionary is what it has under each name. -/
theorem ext_get? {d d' : Dictionary α} (h : ∀ name, d.get? name = d'.get? name) : d = d' := by
  have perm : d.entries.Perm d'.entries := by
    refine (List.perm_ext_iff_of_nodup (.of_map Prod.fst d.names_nodup)
      (.of_map Prod.fst d'.names_nodup)).2 fun (name, x) => ?_
    rw [← lookup_eq_some_iff_mem d.names_nodup, ← lookup_eq_some_iff_mem d'.names_nodup]
    exact Eq.congr_left (h name)
  have entries_eq : d.entries = d'.entries := by
    refine perm.eq_of_pairwise ?_ (List.pairwise_map.1 d.increasing)
      (List.pairwise_map.1 d'.increasing)
    intro first second _ _ before after
    exact (Text.not_precedes_of_precedes before after).elim
  cases d
  cases d'
  cases entries_eq
  rfl

theorem insert_comm (d : Dictionary α) {name other : Text} (differ : name ≠ other) (x y : α) :
    (d.insert name x).insert other y = (d.insert other y).insert name x := by
  apply ext_get?
  intro n
  rw [get?_insert, get?_insert, get?_insert, get?_insert]
  by_cases first : n = name
  · have not_other : n ≠ other := first ▸ differ
    rw [if_neg not_other, if_pos first, if_pos first]
  · rw [if_neg first, if_neg first]

end Dictionary
end Walkthrough
