import Mathlib.Data.List.TakeWhile
import Walkthrough.Text.Blank

/-!
# Trimmed texts

A text with no blank at either end comes back out of any blanks around it:
`trim_pad`.  Every text is its trimmed form with blanks around it, `exists_pad`, and so
blanks at the end of a text make no difference to what is left of it.
-/

namespace Walkthrough

/-- The printing characters of ASCII are no blanks. -/
theorem isBlank_eq_false {c : Char} (lower : 0x21 ≤ c.toNat) (upper : c.toNat ≤ 0x7E) :
    isBlank c = false := by
  simp only [isBlank, Bool.or_eq_false_iff, Bool.and_eq_false_iff, decide_eq_false_iff_not,
    beq_eq_false_iff_ne]
  omega

theorem isBlank_of_mem_spaces {n : Nat} {c : Char} (h : c ∈ List.replicate n ' ') :
    isBlank c = true := by
  rw [List.eq_of_mem_replicate h]
  decide

namespace Text

/-- No blank stands at the start or at the end. -/
structure Trimmed (t : Text) : Prop where
  head : ∀ c, t.head? = some c → isBlank c = false
  last : ∀ c, t.getLast? = some c → isBlank c = false

theorem dropWhile_append_eq {α : Type} {p : α → Bool} {skipped t : List α}
    (inside : ∀ c ∈ skipped, p c = true) (boundary : ∀ c, t.head? = some c → p c = false) :
    (skipped ++ t).dropWhile p = t := by
  rw [List.dropWhile_append_of_pos inside]
  cases t with
  | nil => rfl
  | cons c rest => rw [List.dropWhile_cons_of_neg (by simp [boundary c rfl])]

theorem takeWhile_append_eq {α : Type} {p : α → Bool} {kept t : List α}
    (inside : ∀ c ∈ kept, p c = true)
    (boundary : ∀ c, t.head? = some c → p c = false) : (kept ++ t).takeWhile p = kept := by
  rw [List.takeWhile_append_of_pos inside]
  cases t with
  | nil => exact List.append_nil kept
  | cons c rest => rw [List.takeWhile_cons_of_neg (by simp [boundary c rfl]), List.append_nil]

theorem trim_pad {before t after : Text} (hb : ∀ c ∈ before, isBlank c = true)
    (ha : ∀ c ∈ after, isBlank c = true) (h : Trimmed t) : trim (before ++ t ++ after) = t := by
  have reversed : ∀ c, t.reverse.head? = some c → isBlank c = false := by
    intro c hc
    exact h.last c (by rwa [List.head?_reverse] at hc)
  rw [trim, trimStart, List.append_assoc]
  cases t with
  | nil =>
    have all : ∀ c ∈ before ++ ([] ++ after), isBlank c = true := by
      intro c hc
      exact (List.mem_append.1 hc).elim (hb c) (ha c)
    rw [List.dropWhile_eq_nil_iff.2 all]
    rfl
  | cons c rest =>
    have boundary : ∀ d, (c :: rest ++ after).head? = some d → isBlank d = false :=
      fun d hd => h.head d hd
    rw [dropWhile_append_eq hb boundary, trimEnd, List.reverse_append,
      dropWhile_append_eq (fun d hd => ha d (List.mem_reverse.1 hd)) reversed, List.reverse_reverse]

theorem Trimmed.trim_eq {t : Text} (h : Trimmed t) : trim t = t := by
  have padded : trim ([] ++ t ++ []) = t := trim_pad (by simp) (by simp) h
  rwa [List.nil_append, List.append_nil] at padded

theorem Trimmed.of_ends {t : Text} {c d : Char} (hc : t.head? = some c) (hd : t.getLast? = some d)
    (blank_c : isBlank c = false) (blank_d : isBlank d = false) : Trimmed t where
  head x hx := by rwa [← Option.some.inj (hc.symm.trans hx)]
  last x hx := by rwa [← Option.some.inj (hd.symm.trans hx)]

theorem Trimmed.of_forall {t : Text} (h : ∀ c ∈ t, isBlank c = false) : Trimmed t where
  head c hc := h c (List.mem_of_head? hc)
  last c hc := h c (List.mem_of_getLast? hc)

theorem Trimmed.enclose {s t : Text} (middle : Text) (hs : Trimmed s) (ht : Trimmed t)
    (s_ne : s ≠ []) (t_ne : t ≠ []) : Trimmed (s ++ middle ++ t) where
  head c hc := by
    cases s with
    | nil => exact absurd rfl s_ne
    | cons d rest => exact hs.head c hc
  last c hc := by
    rw [List.getLast?_append, List.getLast?_eq_some_getLast t_ne, Option.some_or] at hc
    exact ht.last c (by rwa [List.getLast?_eq_some_getLast t_ne])

theorem isBlank_of_mem_takeWhile {t : Text} {c : Char} (h : c ∈ t.takeWhile isBlank) :
    isBlank c = true :=
  List.all_eq_true.1 List.all_takeWhile c h

theorem isBlank_eq_false_of_head?_dropWhile {t : Text} {c : Char}
    (h : (t.dropWhile isBlank).head? = some c) : isBlank c = false := by
  have first := List.head?_dropWhile_not isBlank t
  rwa [h] at first

theorem trimEnd_append_blanks (t : Text) :
    trimEnd t ++ (t.reverse.takeWhile isBlank).reverse = t := by
  rw [trimEnd, ← List.reverse_append, List.takeWhile_append_dropWhile, List.reverse_reverse]

theorem exists_pad (t : Text) : ∃ before after, (∀ c ∈ before, isBlank c = true) ∧
    (∀ c ∈ after, isBlank c = true) ∧ before ++ trim t ++ after = t := by
  refine ⟨t.takeWhile isBlank, ((trimStart t).reverse.takeWhile isBlank).reverse, ?_, ?_, ?_⟩
  · intro c hc
    exact isBlank_of_mem_takeWhile hc
  · intro c hc
    exact isBlank_of_mem_takeWhile (List.mem_reverse.1 hc)
  · rw [trim, List.append_assoc, trimEnd_append_blanks]
    exact List.takeWhile_append_dropWhile

theorem exists_trim_cons {c : Char} (solid : isBlank c = false) (t : Text) :
    ∃ rest, trim (c :: t) = c :: rest := by
  obtain ⟨before, after, hb, ha, padded⟩ := exists_pad (c :: t)
  cases before with
  | cons d before =>
    have same : d = c := (List.cons.inj padded).1
    rw [← same, hb d List.mem_cons_self] at solid
    cases solid
  | nil =>
    cases kept : trim (c :: t) with
    | cons d rest =>
      rw [kept] at padded
      have same : d = c := (List.cons.inj padded).1
      exact ⟨rest, by rw [same]⟩
    | nil =>
      rw [kept, List.append_nil, List.nil_append] at padded
      rw [ha c (padded ▸ List.mem_cons_self)] at solid
      cases solid

theorem trim_subset (t : Text) : trim t ⊆ t := by
  obtain ⟨before, after, -, -, padded⟩ := exists_pad t
  intro c hc
  rw [← padded]
  exact List.mem_append_left _ (List.mem_append_right _ hc)

theorem trimmed_trim (t : Text) : Trimmed (trim t) where
  head c hc := by
    -- the first character that trimming at the end leaves was the first before it
    rw [trim] at hc
    have kept : (trimStart t).head? = some c := by
      rw [← trimEnd_append_blanks (trimStart t), List.head?_append, hc, Option.some_or]
    exact isBlank_eq_false_of_head?_dropWhile kept
  last c hc := by
    rw [trim, trimEnd, List.getLast?_reverse] at hc
    exact isBlank_eq_false_of_head?_dropWhile hc

/-- Nothing is left of a text exactly if it is blank throughout. -/
theorem trim_eq_nil_iff {t : Text} : trim t = [] ↔ ∀ c ∈ t, isBlank c = true := by
  constructor
  · intro empty
    obtain ⟨before, after, hb, ha, padded⟩ := exists_pad t
    rw [empty, List.append_nil] at padded
    rw [← padded]
    exact List.forall_mem_append.2 ⟨hb, ha⟩
  · intro blanks
    have nothing : Trimmed [] := .of_forall (List.forall_mem_nil _)
    simpa using trim_pad blanks (List.forall_mem_nil _) nothing

theorem trim_blanks_append {before : Text} (h : ∀ c ∈ before, isBlank c = true) (t : Text) :
    trim (before ++ t) = trim t := by
  rw [trim, trimStart, List.dropWhile_append_of_pos h]
  rfl

theorem trim_append_blanks (t : Text) {after : Text} (h : ∀ c ∈ after, isBlank c = true) :
    trim (t ++ after) = trim t := by
  obtain ⟨first, last, hfirst, hlast, padded⟩ := exists_pad t
  have blanks : ∀ c ∈ last ++ after, isBlank c = true := by
    intro c hc
    exact (List.mem_append.1 hc).elim (hlast c) (h c)
  calc trim (t ++ after)
    _ = trim (first ++ trim t ++ (last ++ after)) := by rw [← List.append_assoc, padded]
    _ = trim t := trim_pad hfirst blanks (trimmed_trim t)

end Text
end Walkthrough
