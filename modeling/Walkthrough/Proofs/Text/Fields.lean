import Mathlib.Data.List.DropRight
import Walkthrough.Proofs.Text.Search
import Walkthrough.Text.Fields

/-!
# Fields and the texts that they come from

`fields_join`: fields without the separator that do not end in an empty one come back
from their joined text.  And the other way round, a field has characters of the text only, and
no separator (`mem_of_mem_fields`), and the first one is what stands before the first separator
(`first_of_fields`).  `fields_lossless` puts this together: of a text that is cut into fields only
the separators at its end are lost.
-/

namespace Walkthrough.Text

theorem dropTrailingEmpty_eq_self {parts : List Text} (h : parts.getLast? ≠ some []) :
    dropTrailingEmpty parts = parts := by
  apply List.rdropWhile_eq_self_iff.2
  intro nonempty empty
  apply h
  rw [List.getLast?_eq_some_getLast nonempty, List.isEmpty_iff.1 empty]

theorem dropTrailingEmpty_eq_nil_iff {parts : List Text} :
    dropTrailingEmpty parts = [] ↔ ∀ part ∈ parts, part = [] := by
  simp only [dropTrailingEmpty, List.reverse_eq_nil_iff, List.dropWhile_eq_nil_iff,
    List.mem_reverse, List.isEmpty_iff]

theorem fields_join {separator : Char} {parts : List Text} (hne : parts ≠ [])
    (free : ∀ part ∈ parts, separator ∉ part)
    (last : parts.length = 1 ∨ parts.getLast? ≠ some []) :
    fields separator (join [separator] parts) = parts := by
  rw [fields, join, List.splitOn_intercalate separator free hne]
  split
  · rfl
  · rename_i several
    rcases last with one | full
    · obtain ⟨whole, rfl⟩ := List.length_eq_one_iff.1 one
      exact absurd rfl (several whole)
    · exact dropTrailingEmpty_eq_self full

/-- A property of the separators and of the parts is one of what is joined. -/
theorem forall_mem_intercalate {α : Type} {P : α → Prop} {separator : List α}
    {parts : List (List α)} (hs : ∀ x ∈ separator, P x) (h : ∀ part ∈ parts, ∀ x ∈ part, P x) :
    ∀ x ∈ separator.intercalate parts, P x := by
  induction parts with
  | nil => exact List.forall_mem_nil _
  | cons part rest ih =>
    obtain ⟨first, others⟩ := List.forall_mem_cons.1 h
    cases rest with
    | nil => rwa [List.intercalate_singleton]
    | cons next rest =>
      rw [List.intercalate_cons_cons, List.forall_mem_append, List.forall_mem_append]
      exact ⟨⟨first, hs⟩, ih others⟩

theorem not_mem_join {c : Char} {separator : Text} {parts : List Text} (hs : c ∉ separator)
    (h : ∀ part ∈ parts, c ∉ part) : c ∉ join separator parts := by
  intro mem
  refine forall_mem_intercalate (P := (· ≠ c)) ?_ ?_ c mem rfl
  · intro d hd same
    exact hs (same ▸ hd)
  · intro part hp d hd same
    exact h part hp (same ▸ hd)

theorem append_join_cons (s separator part : Text) (rest : List Text) :
    s ++ join separator (part :: rest) = join separator ((s ++ part) :: rest) := by
  unfold join
  cases rest with
  | nil => rw [List.intercalate_singleton, List.intercalate_singleton]
  | cons next rest =>
    rw [List.intercalate_cons_cons, List.intercalate_cons_cons]
    simp only [List.append_assoc]

theorem without_of_not_mem {c : Char} {t : Text} (h : c ∉ t) : without (· = c) t = t := by
  apply List.filter_eq_self.2
  intro d hd
  have differs : d ≠ c := ne_of_mem_of_not_mem hd h
  simp [differs]

/-! ## The first field -/

section
variable {t : Text}

/-- The first field stands before the first separator. -/
theorem first_of_fields {separator : Char} {first : Text} {others : List Text}
    (h : fields separator t = first :: others) : first = upTo (· = separator) t := by
  obtain ⟨rest, split⟩ := exists_splitOnP_eq_cons (· == separator) t
  rw [fields, List.splitOn_eq_splitOnP, split] at h
  have cut : first :: others <+: upTo (· == separator) t :: rest := by
    cases rest with
    | nil => exact h ▸ List.prefix_rfl
    | cons next rest =>
      rw [← h]
      exact List.rdropWhile_prefix _ _
  exact (List.cons_prefix_cons.1 cut).1

/-- If nothing is left of the fields, then nothing stands before the first separator. -/
theorem head?_fields (separator : Char) (t : Text) :
    (fields separator t).head?.getD [] = upTo (· = separator) t := by
  cases cut : fields separator t with
  | cons first others => exact first_of_fields cut
  | nil =>
    obtain ⟨others, split⟩ := exists_splitOnP_eq_cons (· == separator) t
    have empty : dropTrailingEmpty (t.splitOn separator) = [] := by
      unfold fields at cut
      split at cut
      · cases cut
      · exact cut
    have all_empty := dropTrailingEmpty_eq_nil_iff.1 empty
    rw [List.splitOn_eq_splitOnP, split] at all_empty
    exact (all_empty _ List.mem_cons_self).symm

end

/-! ## The characters of a field -/

section
variable {separator : Char} {t part : Text}

theorem mem_of_mem_splitOnP {p : Char → Bool} (h : part ∈ t.splitOnP p) :
    ∀ c ∈ part, c ∈ t ∧ p c = false := by
  induction t generalizing part with
  | nil =>
    rw [List.splitOnP_nil, List.mem_singleton] at h
    subst h
    exact List.forall_mem_nil _
  | cons d rest ih =>
    have later {part : Text} (hp : part ∈ rest.splitOnP p) :
        ∀ c ∈ part, c ∈ d :: rest ∧ p c = false :=
      fun c hc => (ih hp c hc).imp_left (List.mem_cons_of_mem d)
    rw [List.splitOnP_cons_eq_if_modifyHead] at h
    split at h
    · rcases List.mem_cons.1 h with rfl | h
      · exact List.forall_mem_nil _
      · exact later h
    · rename_i differs
      obtain ⟨first, others, split⟩ := List.exists_cons_of_ne_nil (List.splitOnP_ne_nil p rest)
      rw [split, List.modifyHead_cons] at h
      rcases List.mem_cons.1 h with rfl | h
      · exact List.forall_mem_cons.2
          ⟨⟨List.mem_cons_self, Bool.not_eq_true _ ▸ differs⟩, later (split ▸ List.mem_cons_self)⟩
      · exact later (split ▸ List.mem_cons_of_mem first h)

theorem mem_of_mem_splitOn (h : part ∈ t.splitOn separator) :
    ∀ c ∈ part, c ∈ t ∧ c ≠ separator := by
  rw [List.splitOn_eq_splitOnP] at h
  intro c hc
  obtain ⟨mem, differs⟩ := mem_of_mem_splitOnP h c hc
  exact ⟨mem, beq_eq_false_iff_ne.1 differs⟩

theorem mem_splitOn_of_mem_fields (h : part ∈ fields separator t) : part ∈ t.splitOn separator := by
  unfold fields at h
  split at h
  · rename_i single
    exact single ▸ h
  · rw [dropTrailingEmpty, List.mem_reverse] at h
    exact List.mem_reverse.1 ((List.dropWhile_sublist _).subset h)

theorem mem_of_mem_fields (h : part ∈ fields separator t) : ∀ c ∈ part, c ∈ t ∧ c ≠ separator :=
  mem_of_mem_splitOn (mem_splitOn_of_mem_fields h)

end

/-! ## What is lost of a text -/

section
variable {separator : Char} {t : Text}

theorem getLast?_dropTrailingEmpty (parts : List Text) :
    (dropTrailingEmpty parts).getLast? ≠ some [] := by
  intro ends
  have nonempty : parts.rdropWhile List.isEmpty ≠ [] := by
    intro nothing
    have ends_in_nothing : ([] : List Text).getLast? = some [] := nothing ▸ ends
    cases ends_in_nothing
  apply List.rdropWhile_last_not List.isEmpty parts nonempty
  have last : some ((parts.rdropWhile List.isEmpty).getLast nonempty) = some [] :=
    (List.getLast?_eq_some_getLast nonempty).symm.trans ends
  rw [Option.some.inj last, List.isEmpty_nil]

/-- If nothing but `x` is dropped at the end, then it is a run of `x`. -/
theorem exists_rdropWhile_append {α : Type} {p : α → Bool} {x : α}
    (only : ∀ y, p y = true → y = x) (xs : List α) :
    ∃ n, xs.rdropWhile p ++ List.replicate n x = xs := by
  have dropped : ∀ y ∈ xs.rtakeWhile p, y = x := by
    intro y mem
    exact only y (List.mem_rtakeWhile_imp mem)
  refine ⟨(xs.rtakeWhile p).length, ?_⟩
  rw [← List.eq_replicate_of_mem dropped]
  exact List.rdropWhile_append_rtakeWhile

theorem exists_dropTrailingEmpty_append (parts : List Text) :
    ∃ n, dropTrailingEmpty parts ++ List.replicate n [] = parts :=
  exists_rdropWhile_append (fun _ => List.isEmpty_iff.1) parts

theorem fields_of_not_mem (h : separator ∉ t) : fields separator t = [t] := by
  have joined : join [separator] [t] = t := List.intercalate_singleton
  calc fields separator t
    _ = fields separator (join [separator] [t]) := by rw [joined]
    _ = [t] := fields_join (List.cons_ne_nil t []) (List.forall_mem_singleton.2 h) (.inl rfl)

theorem fields_of_mem (h : separator ∈ t) :
    fields separator t = dropTrailingEmpty (t.splitOn separator) := by
  unfold fields
  split
  · rename_i whole single
    -- a single piece would be the whole text, with the separator in it
    have joined : join [separator] (t.splitOn separator) = t := List.intercalate_splitOn separator
    rw [single, join, List.intercalate_singleton] at joined
    have piece : whole ∈ t.splitOn separator := single ▸ List.mem_cons_self
    exact absurd rfl (mem_of_mem_splitOn piece separator (joined ▸ h)).2
  · rfl

theorem join_concat_nil {separator : Text} {parts : List Text} (h : parts ≠ []) :
    join separator (parts ++ [[]]) = join separator parts ++ separator := by
  induction parts with
  | nil => exact absurd rfl h
  | cons part rest ih =>
    unfold join at ih ⊢
    cases rest with
    | nil => simp [List.intercalate_cons_cons]
    | cons next rest =>
      have behind := ih (List.cons_ne_nil next rest)
      rw [List.cons_append] at behind
      rw [List.cons_append, List.cons_append, List.intercalate_cons_cons, behind,
        List.intercalate_cons_cons, List.append_assoc, List.append_assoc, List.append_assoc]

/-- Empty fields at the end are separators in the joined text. -/
theorem exists_join_append_empty (separator : Char) (parts : List Text) (n : Nat) :
    ∃ m, join [separator] (parts ++ List.replicate n []) =
      join [separator] parts ++ List.replicate m separator := by
  induction n with
  | zero =>
    refine ⟨0, ?_⟩
    simp only [List.replicate_zero, List.append_nil]
  | succ n ih =>
    obtain ⟨m, joined⟩ := ih
    by_cases nothing : parts ++ List.replicate n [] = []
    · -- no field before the last one, so there is no separator before it
      obtain ⟨rfl, none⟩ := List.append_eq_nil_iff.1 nothing
      rw [List.replicate_succ', none]
      exact ⟨0, rfl⟩
    · refine ⟨m + 1, ?_⟩
      rw [List.replicate_succ', ← List.append_assoc, join_concat_nil nothing, joined,
        List.append_assoc, ← List.replicate_succ']

theorem exists_eq_join_fields (h : separator ∈ t) :
    ∃ n, t = join [separator] (fields separator t) ++ List.replicate n separator := by
  obtain ⟨n, kept⟩ := exists_dropTrailingEmpty_append (t.splitOn separator)
  rw [← fields_of_mem h] at kept
  obtain ⟨m, joined⟩ := exists_join_append_empty separator (fields separator t) n
  refine ⟨m, ?_⟩
  calc t
    _ = join [separator] (t.splitOn separator) := (List.intercalate_splitOn separator).symm
    _ = join [separator] (fields separator t ++ List.replicate n []) := by rw [kept]
    _ = join [separator] (fields separator t) ++ List.replicate m separator := joined

theorem fields_eq_nil_iff (h : separator ∈ t) :
    fields separator t = [] ↔ ∀ c ∈ t, c = separator := by
  constructor
  · intro nothing c hc
    obtain ⟨n, whole⟩ := exists_eq_join_fields h
    rw [nothing] at whole
    have run : t = List.replicate n separator := whole
    rw [run] at hc
    exact List.eq_of_mem_replicate hc
  · intro all
    rw [fields_of_mem h, dropTrailingEmpty_eq_nil_iff]
    intro part piece
    apply List.eq_nil_iff_forall_not_mem.2
    intro c hc
    obtain ⟨mem, differs⟩ := mem_of_mem_splitOn piece c hc
    exact differs (all c mem)

/-- **Cutting a text into fields loses nothing but separators at its end.**  No field has the
separator in it, and a text without one is the only field.  Otherwise the last field is not
empty, the text is the fields joined and a run of separators, and there is no field exactly if
there is nothing but separators.  And fields that are alone or do not end in an empty one come
back from the joined text. -/
theorem fields_lossless (separator : Char) :
    (∀ t : Text,
      (∀ field ∈ fields separator t, separator ∉ field) ∧
      (separator ∉ t → fields separator t = [t]) ∧
      (separator ∈ t →
        (fields separator t).getLast? ≠ some [] ∧
        (∃ n, t = join [separator] (fields separator t) ++ List.replicate n separator) ∧
        (fields separator t = [] ↔ ∀ c ∈ t, c = separator))) ∧
    ∀ parts : List Text, (∀ part ∈ parts, separator ∉ part) →
      (parts.length = 1 ∨ ∃ last, parts.getLast? = some last ∧ last ≠ []) →
        fields separator (join [separator] parts) = parts := by
  constructor
  · intro t
    refine ⟨?_, fields_of_not_mem, ?_⟩
    · intro field mem inside
      exact (mem_of_mem_fields mem separator inside).2 rfl
    · intro h
      refine ⟨?_, exists_eq_join_fields h, fields_eq_nil_iff h⟩
      rw [fields_of_mem h]
      exact getLast?_dropTrailingEmpty _
  · intro parts free last
    rcases last with one | ⟨last, ends, full⟩
    · have nonempty : parts ≠ [] := List.ne_nil_of_length_pos (one ▸ Nat.one_pos)
      exact fields_join nonempty free (.inl one)
    · apply fields_join _ free (.inr _)
      · rintro rfl
        cases ends
      · rw [ends]
        exact mt Option.some.inj full

/-- Empty fields at the front and in the middle come back, those behind the last separators are
dropped. -/
theorem fields_lossless_gaps :
    (',' ∈ ",a,,b,,".toList ∧
      ∃ n, ",a,,b,,".toList = join [','] (fields ',' ",a,,b,,".toList) ++ List.replicate n ',') ∧
    (∀ part ∈ [[], ['a'], [], ['b']], ',' ∉ part) ∧
    fields ',' (join [','] [[], ['a'], [], ['b']]) = [[], ['a'], [], ['b']] := by
  obtain ⟨cut, joined⟩ := fields_lossless ','
  have inside : ',' ∈ ",a,,b,,".toList := by decide
  have free : ∀ part ∈ [[], ['a'], [], ['b']], ',' ∉ part := by decide
  obtain ⟨-, -, several⟩ := cut ",a,,b,,".toList
  exact ⟨⟨inside, (several inside).2.1⟩, free,
    joined _ free (.inr ⟨['b'], rfl, List.cons_ne_nil _ _⟩)⟩

end

end Walkthrough.Text
