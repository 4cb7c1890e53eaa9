import Mathlib.Data.List.Infix
import Walkthrough.Proofs.Text.Words

/-!
# Where a text stops or is found

What stands before the first stop of a text depends on nothing behind it
(`upTo_append_stop`), so a name at the start of a text is found there also once the text is
trimmed (`upTo_trim_append`).  A needle with its first character only once in it is found where
it stands unless it occurs before: no occurrence begins before it and ends in it
(`cut?_append`).  `cut?_singleton` is the cut at one character.
-/

namespace Walkthrough.Text

variable {stop : Char → Bool} {s t : Text}

/-! ## Stops -/

theorem upTo_append_stop {c : Char} (h : stop c = true) (s t : Text) :
    upTo stop (s ++ c :: t) = upTo stop s := by
  induction s with
  | nil => simp [upTo, h]
  | cons d s ih =>
    simp only [upTo, List.cons_append, List.takeWhile_cons] at ih ⊢
    rw [ih]

/-- Nothing behind a stop matters. -/
theorem upTo_append_of_mem {c : Char} (mem : c ∈ s) (h : stop c = true) (t : Text) :
    upTo stop (s ++ t) = upTo stop s := by
  obtain ⟨before, after, rfl⟩ := List.append_of_mem mem
  rw [List.append_assoc, List.cons_append, upTo_append_stop h, upTo_append_stop h]

theorem upTo_append_stops (h : ∀ c ∈ t, stop c = true) : upTo stop (s ++ t) = upTo stop s := by
  cases t with
  | nil => rw [List.append_nil]
  | cons c t => exact upTo_append_stop (h c List.mem_cons_self) s t

theorem upTo_append_congr {t' : Text} (h : upTo stop t = upTo stop t') (s : Text) :
    upTo stop (s ++ t) = upTo stop (s ++ t') := by
  unfold upTo at h ⊢
  rw [List.takeWhile_append, List.takeWhile_append, h]

theorem upTo_append (inside : ∀ c ∈ s, stop c = false)
    (boundary : ∀ c, t.head? = some c → stop c = true) : upTo stop (s ++ t) = s := by
  apply takeWhile_append_eq
  · intro c hc
    simp [inside c hc]
  · intro c hc
    simp [boundary c hc]

/-- If blanks are stops, then those around a text do not matter, except for the first ones. -/
theorem upTo_trim (blanks : ∀ c, isBlank c = true → stop c = true)
    (head : ∀ c, t.head? = some c → isBlank c = false) :
    upTo stop (trim t) = upTo stop t := by
  have kept : trim t = trimEnd t := by
    rw [trim, trimStart]
    cases t with
    | nil => rfl
    | cons c t => rw [List.dropWhile_cons_of_neg (by simp [head c rfl])]
  have solid : ∀ c ∈ (t.reverse.takeWhile isBlank).reverse, stop c = true := by
    intro c hc
    exact blanks c (isBlank_of_mem_takeWhile (List.mem_reverse.1 hc))
  calc upTo stop (trim t)
    _ = upTo stop (trimEnd t) := by rw [kept]
    _ = upTo stop (trimEnd t ++ (t.reverse.takeWhile isBlank).reverse) :=
      (upTo_append_stops solid).symm
    _ = upTo stop t := by rw [trimEnd_append_blanks]

/-- What stands at the start of a text up to a stop is found there also in the trimmed text. -/
theorem upTo_trim_append (blanks : ∀ c, isBlank c = true → stop c = true) (hne : s ≠ [])
    (inside : ∀ c ∈ s, stop c = false) (boundary : ∀ c, t.head? = some c → stop c = true) :
    upTo stop (trim (s ++ t)) = s := by
  have head : ∀ c, (s ++ t).head? = some c → isBlank c = false := by
    intro c hc
    obtain ⟨first, rest, rfl⟩ := List.exists_cons_of_ne_nil hne
    rw [← Option.some.inj hc]
    by_contra blank
    have stops := blanks first (Bool.not_eq_false _ ▸ blank)
    rw [inside first List.mem_cons_self] at stops
    cases stops
  rw [upTo_trim blanks head, upTo_append inside boundary]

/-! ## Occurrences -/

/-- A text that goes on with a character it does not have starts before it. -/
theorem prefix_of_append_cons {m : Text} {c : Char} (hc : c ∉ m) (h : m <+: s ++ c :: t) :
    m <+: s := by
  induction s generalizing m with
  | nil =>
    cases m with
    | nil => exact List.nil_prefix
    | cons d m =>
      rw [List.nil_append, List.cons_prefix_cons] at h
      exact absurd (h.1 ▸ List.mem_cons_self) hc
  | cons d s ih =>
    cases m with
    | nil => exact List.nil_prefix
    | cons e m =>
      rw [List.cons_append, List.cons_prefix_cons] at h
      exact List.cons_prefix_cons.2 ⟨h.1, ih (fun mem => hc (List.mem_cons_of_mem e mem)) h.2⟩

theorem cut?_eq_none_iff {needle : Text} : cut? needle t = none ↔ ¬ needle <:+: t := by
  rw [← occursIn_iff, occursIn, Bool.not_eq_true, Option.isSome_eq_false_iff,
    Option.isNone_iff_eq_none]

theorem cut?_append {c : Char} {needle before : Text} (once : c ∉ needle)
    (free : ¬ c :: needle <:+: before) (after : Text) :
    cut? (c :: needle) (before ++ c :: needle ++ after) = some (before, after) := by
  induction before with
  | nil =>
    have starts : (c :: needle).isPrefixOf (c :: (needle ++ after)) = true :=
      List.isPrefixOf_iff_prefix.2 (List.prefix_append (c :: needle) after)
    rw [List.nil_append, List.cons_append, cut?, if_pos starts]
    simp
  | cons d before ih =>
    have later : ¬ (c :: needle).isPrefixOf (d :: (before ++ c :: needle ++ after)) = true := by
      rw [List.isPrefixOf_iff_prefix, List.cons_prefix_cons, List.append_assoc, List.cons_append]
      rintro ⟨rfl, starts⟩
      exact free (List.cons_prefix_cons.2 ⟨rfl, prefix_of_append_cons once starts⟩).isInfix
    have free_behind : ¬ c :: needle <:+: before := mt List.infix_cons free
    rw [List.cons_append, List.cons_append, cut?, if_neg later, ih free_behind]
    rfl

theorem cut?_singleton {c : Char} (before after : Text) (h : c ∉ before) :
    cut? [c] (before ++ c :: after) = some (before, after) := by
  have free : ¬ [c] <:+: before := mt (List.singleton_infix_iff c before).1 h
  have found : cut? [c] (before ++ [c] ++ after) = some (before, after) :=
    cut?_append List.not_mem_nil free after
  rwa [List.append_assoc, List.singleton_append] at found

theorem cut?_singleton_eq_none_iff {c : Char} : cut? [c] t = none ↔ c ∉ t := by
  rw [cut?_eq_none_iff, List.singleton_infix_iff]

theorem not_mem_of_cut?_singleton {c : Char} {before after : Text}
    (h : cut? [c] t = some (before, after)) : c ∉ before := by
  intro mem
  obtain ⟨first, rest, rfl, new⟩ := List.eq_append_cons_of_mem mem
  rw [cut?_eq_append h, List.append_assoc, List.append_assoc, List.cons_append,
    cut?_singleton _ _ new] at h
  simp at h

/-- Cut at its last occurrence. -/
theorem exists_last {α : Type} {x : α} {xs : List α} (h : x ∈ xs) :
    ∃ before after, xs = before ++ x :: after ∧ x ∉ after := by
  obtain ⟨before, after, split, first⟩ := List.eq_append_cons_of_mem (List.mem_reverse.2 h)
  refine ⟨after.reverse, before.reverse, ?_, List.mem_reverse.not.2 first⟩
  rw [← List.reverse_reverse xs, split]
  simp

end Walkthrough.Text
