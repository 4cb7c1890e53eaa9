import Walkthrough.Json.Number
import Walkthrough.Proofs.Numbers

/-!
# Number literals inside a text

Reading a number takes it off the front of a text and loses nothing of either
(`take?_eq_append`).  What follows a number cannot change it, unless it starts with a
character that could go on with the number: `take?_append`.
-/

namespace Walkthrough.Json

/-- The characters of number literals. -/
def isLiteralChar (c : Char) : Bool := c.isDigit || ['-', '+', '.', 'e', 'E'].contains c

/-- No number goes on with the text. -/
def EndsNumber (t : Text) : Prop := ∀ c, t.head? = some c → isLiteralChar c = false

theorem EndsNumber.nil : EndsNumber [] := by
  intro c hc
  cases hc

theorem EndsNumber.cons {c : Char} (h : isLiteralChar c = false) (t : Text) :
    EndsNumber (c :: t) := by
  intro d hd
  exact Option.some.inj hd ▸ h

theorem isLiteralChar_of_isDigit {c : Char} (h : c.isDigit = true) : isLiteralChar c = true := by
  rw [isLiteralChar, h, Bool.true_or]

/-- The characters of numbers are printing ones. -/
theorem isLiteralChar_range {c : Char} (h : isLiteralChar c = true) :
    0x2B ≤ c.toNat ∧ c.toNat ≤ 0x65 := by
  simp only [isLiteralChar, Bool.or_eq_true, List.contains_iff_mem, List.mem_cons,
    List.not_mem_nil, or_false] at h
  rcases h with digit | rfl | rfl | rfl | rfl | rfl
  · have range := isDigit_range digit
    omega
  all_goals decide

namespace NumberLiteral

/-! ## The parts lose nothing -/

/-- A part of a number in front of the rest of a text. -/
def Splits (t part rest : Text) : Prop := t = part ++ rest ∧ ∀ c ∈ part, isLiteralChar c = true

theorem splits_digitsOf (t : Text) : Splits t (digitsOf t).1 (digitsOf t).2 := by
  refine ⟨List.takeWhile_append_dropWhile.symm, ?_⟩
  intro c hc
  exact isLiteralChar_of_isDigit (List.all_eq_true.1 List.all_takeWhile c hc)

theorem Splits.cons {t part rest : Text} {c : Char} (h : Splits t part rest)
    (hc : isLiteralChar c = true) : Splits (c :: t) (c :: part) rest := by
  refine ⟨congrArg (c :: ·) h.1, ?_⟩
  exact List.forall_mem_cons.2 ⟨hc, h.2⟩

theorem Splits.nil (t : Text) : Splits t [] t := ⟨rfl, List.forall_mem_nil _⟩

theorem Splits.append {t part middle part' rest : Text} (h : Splits t part middle)
    (h' : Splits middle part' rest) : Splits t (part ++ part') rest := by
  refine ⟨by rw [h.1, h'.1, List.append_assoc], ?_⟩
  intro c hc
  exact (List.mem_append.1 hc).elim (h.2 c) (h'.2 c)

theorem splits_takeMinus (t : Text) : Splits t (takeMinus t).1 (takeMinus t).2 := by
  unfold takeMinus
  split
  · exact (Splits.nil _).cons rfl
  · exact .nil _

theorem splits_takeWhole? {t part rest : Text} (h : takeWhole? t = some (part, rest)) :
    Splits t part rest := by
  have digits := splits_digitsOf t
  unfold takeWhole? at h
  split at h
  · cases h
  · cases h
  · rw [Option.some.inj h] at digits
    exact digits

theorem splits_takeFraction? {t part rest : Text} (h : takeFraction? t = some (part, rest)) :
    Splits t part rest := by
  unfold takeFraction? at h
  split at h
  · rename_i after
    have digits := splits_digitsOf after
    split at h
    · cases h
    · rename_i found
      rw [found] at digits
      cases h
      exact digits.cons rfl
  · cases h
    exact .nil _

theorem splits_takeExponentSign (t : Text) :
    Splits t (takeExponentSign t).1 (takeExponentSign t).2 := by
  unfold takeExponentSign
  split
  · exact (Splits.nil _).cons rfl
  · exact (Splits.nil _).cons rfl
  · exact .nil _

theorem splits_takeExponent? {t part rest : Text} (h : takeExponent? t = some (part, rest)) :
    Splits t part rest := by
  unfold takeExponent? at h
  split at h
  · cases h
    exact .nil _
  · rename_i mark after
    split at h
    · rename_i marks
      have mark_literal : isLiteralChar mark = true := by
        rcases marks with rfl | rfl <;> rfl
      have sign := splits_takeExponentSign after
      have digits := splits_digitsOf (takeExponentSign after).2
      dsimp only at h
      split at h
      · cases h
      · rename_i found
        rw [found] at digits
        cases h
        exact (sign.append digits).cons mark_literal
    · cases h
      exact .nil _

/-- A number and what comes after it are the text. -/
theorem splits_take? {t rest : Text} {l : NumberLiteral} (h : take? t = some (l, rest)) :
    Splits t l.text rest := by
  have minus := splits_takeMinus t
  simp only [take?] at h
  split at h
  · cases h
  · rename_i whole
    split at h
    · cases h
    · rename_i fraction
      obtain ⟨⟨exponent, after⟩, taken, eq⟩ := Option.map_eq_some_iff.1 h
      cases eq
      exact ((minus.append (splits_takeWhole? whole)).append (splits_takeFraction? fraction)).append
        (splits_takeExponent? taken)

theorem whole_ne_nil {t whole rest : Text} (h : takeWhole? t = some (whole, rest)) :
    whole ≠ [] := by
  rintro rfl
  unfold takeWhole? at h
  split at h
  · cases h
  · cases h
  · rename_i some_digit _
    exact some_digit rest (Option.some.inj h)

theorem text_ne_nil_of_take? {t rest : Text} {l : NumberLiteral} (h : take? t = some (l, rest)) :
    l.text ≠ [] := by
  simp only [take?] at h
  split at h
  · cases h
  · rename_i whole
    split at h
    · cases h
    · obtain ⟨_, -, eq⟩ := Option.map_eq_some_iff.1 h
      cases eq
      simp [text, whole_ne_nil whole]

/-- A number starts with one of its characters. -/
theorem exists_cons_of_take? {t rest : Text} {l : NumberLiteral} (h : take? t = some (l, rest)) :
    ∃ c after, t = c :: after ∧ isLiteralChar c = true := by
  obtain ⟨t_eq, literal⟩ := splits_take? h
  obtain ⟨c, after, text_eq⟩ := List.exists_cons_of_ne_nil (text_ne_nil_of_take? h)
  refine ⟨c, after ++ rest, ?_, literal c (text_eq ▸ List.mem_cons_self)⟩
  rw [t_eq, text_eq, List.cons_append]

/-! ## What follows a number -/

section
variable {rest : Text} (h : EndsNumber rest)
include h

theorem digitsOf_append (t : Text) :
    digitsOf (t ++ rest) = ((digitsOf t).1, (digitsOf t).2 ++ rest) := by
  induction t with
  | nil =>
    cases rest with
    | nil => rfl
    | cons c rest =>
      have no_digit : ¬ c.isDigit = true := fun digit => by
        have literal := h c rfl
        rw [isLiteralChar_of_isDigit digit] at literal
        cases literal
      simp only [digitsOf, List.nil_append, List.takeWhile_cons_of_neg no_digit,
        List.dropWhile_cons_of_neg no_digit, List.takeWhile_nil, List.dropWhile_nil]
  | cons c t ih =>
    simp only [digitsOf, Prod.mk.injEq] at ih ⊢
    by_cases digit : c.isDigit = true
    · simp [digit, ih]
    · simp [digit]

theorem takeWhole?_append (t : Text) :
    takeWhole? (t ++ rest) = (takeWhole? t).map fun (part, after) => (part, after ++ rest) := by
  simp only [takeWhole?, digitsOf_append h]
  generalize digitsOf t = digits
  obtain ⟨digits, after⟩ := digits
  split <;> simp_all

theorem takeFraction?_append (t : Text) :
    takeFraction? (t ++ rest) =
      (takeFraction? t).map fun (part, after) => (part, after ++ rest) := by
  cases t with
  | nil =>
    cases rest with
    | nil => rfl
    | cons c rest =>
      have no_point : c ≠ '.' := by
        rintro rfl
        cases h '.' rfl
      unfold takeFraction?
      simp [no_point]
  | cons c t =>
    by_cases point : c = '.'
    · subst point
      simp only [List.cons_append, takeFraction?, digitsOf_append h]
      generalize digitsOf t = digits
      obtain ⟨digits, after⟩ := digits
      cases digits <;> rfl
    · unfold takeFraction?
      simp [point]

theorem takeExponentSign_append (t : Text) :
    takeExponentSign (t ++ rest) = ((takeExponentSign t).1, (takeExponentSign t).2 ++ rest) := by
  cases t with
  | nil =>
    cases rest with
    | nil => rfl
    | cons c rest =>
      have no_minus : c ≠ '-' := by
        rintro rfl
        cases h '-' rfl
      have no_plus : c ≠ '+' := by
        rintro rfl
        cases h '+' rfl
      unfold takeExponentSign
      simp [no_minus, no_plus]
  | cons c t =>
    unfold takeExponentSign
    by_cases minus : c = '-'
    · simp [minus]
    · by_cases plus : c = '+'
      · simp [plus]
      · simp [minus, plus]

theorem takeExponent?_append (t : Text) :
    takeExponent? (t ++ rest) =
      (takeExponent? t).map fun (part, after) => (part, after ++ rest) := by
  cases t with
  | nil =>
    cases rest with
    | nil => rfl
    | cons c rest =>
      have no_mark : ¬ (c = 'e' ∨ c = 'E') := by
        rintro (rfl | rfl)
        · cases h 'e' rfl
        · cases h 'E' rfl
      simp [takeExponent?, no_mark]
  | cons c t =>
    by_cases mark : c = 'e' ∨ c = 'E'
    · simp only [List.cons_append, takeExponent?, mark, if_true, takeExponentSign_append h,
        digitsOf_append h]
      generalize digitsOf (takeExponentSign t).2 = digits
      obtain ⟨digits, after⟩ := digits
      cases digits <;> rfl
    · simp [takeExponent?, mark]

theorem takeMinus_append (t : Text) :
    takeMinus (t ++ rest) = ((takeMinus t).1, (takeMinus t).2 ++ rest) := by
  cases t with
  | nil =>
    cases rest with
    | nil => rfl
    | cons c rest =>
      have no_minus : c ≠ '-' := by
        rintro rfl
        cases h '-' rfl
      unfold takeMinus
      simp [no_minus]
  | cons c t =>
    unfold takeMinus
    by_cases minus : c = '-'
    · simp [minus]
    · simp [minus]

/-- A number ends where the text after it cannot go on with it. -/
theorem take?_append (t : Text) :
    take? (t ++ rest) = (take? t).map fun (l, after) => (l, after ++ rest) := by
  simp only [take?, takeMinus_append h, takeWhole?_append h]
  cases takeWhole? (takeMinus t).2 with
  | none => rfl
  | some found =>
    obtain ⟨whole, after⟩ := found
    simp only [Option.map_some, takeFraction?_append h]
    cases takeFraction? after with
    | none => rfl
    | some found =>
      obtain ⟨fraction, after⟩ := found
      simp only [Option.map_some, takeExponent?_append h, Option.map_map, Function.comp_def]

end

end NumberLiteral

end Walkthrough.Json
