import Mathlib.Data.List.Basic
import Walkthrough.Files.Path
import Walkthrough.Proofs.Text.Fields
import Walkthrough.Proofs.Text.Lossy

/-!
# The parts of a path

A path under a directory has the parts of the directory's path and one more, the name
(`steps_join`).  So names that lead down from a directory can be read off the path at which
they end, `below_injective`, and so can the last of them and its extension.  If they are UTF-8,
they can even be read off what is shown of the path: `display_below_injective`.
-/

namespace Walkthrough.Path

/-- A name that an entry of a directory can have. -/
structure IsName (name : Name) : Prop where
  nonempty : name ≠ []
  single : slash ∉ name
  not_here : name ≠ [dot]
  not_above : name ≠ [dot, dot]

instance (name : Name) : Decidable (IsName name) :=
  decidable_of_iff (name ≠ [] ∧ slash ∉ name ∧ name ≠ [dot] ∧ name ≠ [dot, dot])
    ⟨fun ⟨nonempty, single, not_here, not_above⟩ => ⟨nonempty, single, not_here, not_above⟩,
      fun h => ⟨h.nonempty, h.single, h.not_here, h.not_above⟩⟩

/-- The path to which names lead down from a path. -/
def below (p : Path) (names : List Name) : Path := names.foldl join p

theorem below_cons (p : Path) (name : Name) (names : List Name) :
    below p (name :: names) = below (p.join name) names :=
  rfl

theorem below_concat (p : Path) (names : List Name) (name : Name) :
    below p (names ++ [name]) = (below p names).join name :=
  List.foldl_append

/-- The parts of a path that say something about the place. -/
def steps (p : Path) : List Name := p.parts.filter fun part => !isVoid part

theorem parts_append_slash (p rest : Path) :
    parts (p ++ slash :: rest) = parts p ++ parts rest := by
  unfold parts
  rw [List.splitOn_eq_splitOnP, List.splitOn_eq_splitOnP, List.splitOn_eq_splitOnP]
  exact List.splitOnP_append_cons p rest (beq_self_eq_true slash)

theorem steps_append_slash (p rest : Path) :
    steps (p ++ slash :: rest) = steps p ++ steps rest := by
  rw [steps, parts_append_slash, List.filter_append]
  rfl

theorem steps_append_slash_dot (p : Path) : steps (p ++ [slash, dot]) = steps p := by
  have nothing : steps [dot] = [] := rfl
  rw [steps_append_slash, nothing, List.append_nil]

theorem IsName.isVoid {name : Name} (h : IsName name) : Path.isVoid name = false := by
  simp only [Path.isVoid, Bool.or_eq_false_iff, List.isEmpty_eq_false_iff, beq_eq_false_iff_ne]
  exact ⟨h.nonempty, h.not_here⟩

theorem IsName.isParent {name : Name} (h : IsName name) : Path.isParent name = false :=
  beq_eq_false_iff_ne.2 h.not_above

theorem IsName.steps {name : Name} (h : IsName name) : Path.steps name = [name] := by
  rw [Path.steps, parts, List.splitOn_eq_singleton h.single, List.filter_singleton, h.isVoid]
  rfl

theorem steps_join (p : Path) {name : Name} (h : IsName name) :
    steps (p.join name) = steps p ++ [name] := by
  have nothing : steps [] = [] := rfl
  unfold join
  split
  · rename_i whole
    rcases whole with rfl | ends
    · rw [nothing, List.nil_append, List.nil_append, h.steps]
    · -- the slash at the end is the one in front of the name
      obtain ⟨start, rfl⟩ := List.getLast?_eq_some_iff.1 ends
      rw [List.append_assoc, List.singleton_append, steps_append_slash, steps_append_slash, nothing,
        List.append_nil, h.steps]
  · rw [steps_append_slash, h.steps]

theorem steps_below (p : Path) {names : List Name} (h : ∀ name ∈ names, IsName name) :
    steps (below p names) = steps p ++ names := by
  induction names generalizing p with
  | nil => exact (List.append_nil _).symm
  | cons name names ih =>
    obtain ⟨first, others⟩ := List.forall_mem_cons.1 h
    rw [below_cons, ih _ others, steps_join p first, List.append_assoc, List.singleton_append]

/-- Other names lead to another path. -/
theorem below_injective (p : Path) {names names' : List Name} (h : ∀ name ∈ names, IsName name)
    (h' : ∀ name ∈ names', IsName name) (same : below p names = below p names') :
    names = names' := by
  have steps_eq := congrArg steps same
  rw [steps_below p h, steps_below p h'] at steps_eq
  exact List.append_cancel_left steps_eq

theorem lastName?_join (p : Path) {name : Name} (h : IsName name) :
    lastName? (p.join name) = some name := by
  have last : (steps (p.join name)).getLast? = some name := by
    rw [steps_join p h, List.getLast?_concat]
  rw [steps] at last
  simp only [lastName?, last, h.isParent, Bool.false_eq_true, if_false]

/-- The extension is what stands after the last dot of a name, if something stands before it. -/
theorem extensionOf?_eq_some_iff {name extension : Name} :
    extensionOf? name = some extension ↔
      ∃ stem, stem ≠ [] ∧ dot ∉ extension ∧ name = stem ++ dot :: extension := by
  have cut (stem extension : Name) (bare : dot ∉ extension) :
      (stem ++ dot :: extension).reverse.dropWhile (· != dot) = dot :: stem.reverse ∧
        (stem ++ dot :: extension).reverse.takeWhile (· != dot) = extension.reverse := by
    have reversed :
        (stem ++ dot :: extension).reverse = extension.reverse ++ dot :: stem.reverse := by
      simp
    have inside : ∀ byte ∈ extension.reverse, (byte != dot) = true := by
      intro byte mem
      rw [bne_iff_ne]
      exact ne_of_mem_of_not_mem (List.mem_reverse.1 mem) bare
    rw [reversed]
    exact ⟨Text.dropWhile_append_eq inside (by simp), Text.takeWhile_append_eq inside (by simp)⟩
  unfold extensionOf?
  constructor
  · intro h
    by_cases dotted : dot ∈ name
    · obtain ⟨stem, rest, rfl, bare⟩ := Text.exists_last dotted
      obtain ⟨behind, before⟩ := cut stem rest bare
      rw [behind, before, List.reverse_reverse] at h
      refine ⟨stem, ?_, ?_⟩
      · rintro rfl
        cases h
      · split at h
        · cases h
        · cases h
        · obtain rfl := Option.some.inj h
          exact ⟨bare, rfl⟩
    · have nothing : name.reverse.dropWhile (· != dot) = [] := by
        rw [List.dropWhile_eq_nil_iff]
        intro byte mem
        rw [bne_iff_ne]
        exact ne_of_mem_of_not_mem (List.mem_reverse.1 mem) dotted
      rw [nothing] at h
      cases h
  · rintro ⟨stem, nonempty, bare, rfl⟩
    obtain ⟨behind, before⟩ := cut stem extension bare
    obtain ⟨last, others, reversed⟩ :=
      List.exists_cons_of_ne_nil (List.reverse_ne_nil_iff.2 nonempty)
    rw [behind, before, List.reverse_reverse, reversed]

/-! ## What is shown of a path -/

/-- Names that are UTF-8 add a text to a path. -/
theorem exists_below_eq_append (p : Path) {names : List Name}
    (h : ∀ name ∈ names, ∃ t : Text, name = Text.toUtf8 t) :
    ∃ t : Text, below p names = p ++ Text.toUtf8 t := by
  induction names generalizing p with
  | nil => exact ⟨[], (List.append_nil p).symm⟩
  | cons name names ih =>
    obtain ⟨⟨first, rfl⟩, others⟩ := List.forall_mem_cons.1 h
    obtain ⟨rest, below_eq⟩ := ih (p.join (Text.toUtf8 first)) others
    rw [below_cons, below_eq]
    unfold join
    split
    · exact ⟨first ++ rest, by simp [Text.toUtf8]⟩
    · exact ⟨'/' :: (first ++ rest), by simp [Text.toUtf8]; rfl⟩

/-- Other names that are UTF-8 lead to a path that is shown in another way. -/
theorem display_below_injective (p : Path) {names names' : List Name}
    (proper : ∀ name ∈ names, IsName name) (proper' : ∀ name ∈ names', IsName name)
    (h : ∀ name ∈ names, ∃ t : Text, name = Text.toUtf8 t)
    (h' : ∀ name ∈ names', ∃ t : Text, name = Text.toUtf8 t)
    (same : display (below p names) = display (below p names')) : names = names' := by
  obtain ⟨t, eq⟩ := exists_below_eq_append p h
  obtain ⟨t', eq'⟩ := exists_below_eq_append p h'
  rw [display, display, eq, eq', Text.lossy_append_toUtf8, Text.lossy_append_toUtf8] at same
  apply below_injective p proper proper'
  rw [eq, eq', List.append_cancel_left same]

end Walkthrough.Path
