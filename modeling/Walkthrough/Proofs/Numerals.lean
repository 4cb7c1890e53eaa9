import Walkthrough.Proofs.Json.Number
import Walkthrough.Proofs.StraightLine
import Walkthrough.Proofs.Text.Digits

/-!
# Which texts are numbers

A whole number is spelled with an optional sign and digits, any zeros in front included.  A
decimal literal has a point among its digits and may end with an exponent; blanks around it
and one letter behind it make no difference.  The readers take these spellings and nothing
else: `Text.readInt32?_eq_some_iff` and `DecimalLiteral.read?_eq_some_iff` are the two
grammars, `Value.readNumber?_exact` says which of them a text is held against.
-/

namespace Walkthrough

open StraightLine (Sign)

/-! ## Signs -/

def StraightLine.Sign.isMinus : Sign → Bool
  | .minus => true
  | _ => false

theorem StraightLine.Sign.apply_eq (sign : Sign) (n : Nat) :
    sign.apply n = if sign.isMinus then -(n : Int) else n := by
  cases sign <;> rfl

theorem StraightLine.Sign.isLiteralChar (sign : Sign) :
    ∀ c ∈ sign.render, Json.isLiteralChar c = true := by
  cases sign with
  | unsigned => exact List.forall_mem_nil _
  | plus => exact List.forall_mem_singleton.2 rfl
  | minus => exact List.forall_mem_singleton.2 rfl

namespace Text

theorem exists_takeSign (t : Text) :
    ∃ (sign : Sign) (rest : Text), takeSign t = (sign.isMinus, rest) ∧ t = sign.render ++ rest := by
  unfold takeSign
  split
  · exact ⟨.minus, _, rfl, rfl⟩
  · exact ⟨.plus, _, rfl, rfl⟩
  · exact ⟨.unsigned, _, rfl, rfl⟩

/-- A sign is taken off whatever starts with none itself. -/
theorem takeSign_render (sign : Sign) {t : Text}
    (unsigned : ∀ c, t.head? = some c → c ≠ '-' ∧ c ≠ '+') :
    takeSign (sign.render ++ t) = (sign.isMinus, t) := by
  cases sign with
  | unsigned =>
    cases t with
    | nil => rfl
    | cons c t =>
      obtain ⟨minus, plus⟩ := unsigned c rfl
      exact takeSign_cons minus plus
  | plus => rfl
  | minus => rfl

theorem ne_sign_of_isDigit {c : Char} (h : c.isDigit = true) : c ≠ '-' ∧ c ≠ '+' := by
  constructor <;> rintro rfl <;> cases h

/-! ## Whole numbers -/

/-- The text is an optional sign and at least one digit, and stands for the number. -/
def SpellsWhole (t : Text) (n : Int) : Prop :=
  ∃ (sign : Sign) (digits : Text), isDigits digits = true ∧ t = sign.render ++ digits ∧
    n = sign.apply (digitsValue digits)

theorem takeSign_digits (sign : Sign) {digits : Text} (h : isDigits digits = true) :
    takeSign (sign.render ++ digits) = (sign.isMinus, digits) := by
  apply takeSign_render
  intro c hc
  exact ne_sign_of_isDigit ((isDigits_iff.1 h).2 c (List.mem_of_head? hc))

theorem readInt32?_eq_some_iff {t : Text} {n : Int32} :
    readInt32? t = some n ↔ t.SpellsWhole n.toInt := by
  constructor
  · intro read
    obtain ⟨sign, digits, taken, rfl⟩ := exists_takeSign t
    simp only [readInt32?, taken, ← Sign.apply_eq] at read
    split at read
    · rename_i fits
      obtain ⟨digits_only, lower, upper⟩ := fits
      cases read
      refine ⟨sign, digits, digits_only, rfl, ?_⟩
      exact Int32.toInt_ofInt_of_le lower (Int.lt_add_one_of_le upper)
    · cases read
  · rintro ⟨sign, digits, digits_only, rfl, value⟩
    have upper : n.toInt ≤ 2147483647 := Int.le_of_lt_add_one n.toInt_lt
    simp only [readInt32?, takeSign_digits sign digits_only, ← Sign.apply_eq, ← value]
    rw [if_pos ⟨digits_only, n.le_toInt, upper⟩, Int32.ofInt_toInt]

theorem SpellsWhole.isLiteralChar {t : Text} {n : Int} (h : t.SpellsWhole n) :
    ∀ c ∈ t, Json.isLiteralChar c = true := by
  obtain ⟨sign, digits, digits_only, rfl, -⟩ := h
  refine List.forall_mem_append.2 ⟨sign.isLiteralChar, ?_⟩
  intro c hc
  exact Json.isLiteralChar_of_isDigit ((isDigits_iff.1 digits_only).2 c hc)

theorem SpellsWhole.not_mem {t : Text} {n : Int} (h : t.SpellsWhole n) {c : Char}
    (other : Json.isLiteralChar c = false) : c ∉ t := by
  intro mem
  rw [h.isLiteralChar c mem] at other
  cases other

theorem SpellsWhole.trimmed {t : Text} {n : Int} (h : t.SpellsWhole n) : Trimmed t := by
  apply Trimmed.of_forall
  intro c hc
  have range := Json.isLiteralChar_range (h.isLiteralChar c hc)
  exact isBlank_eq_false (by omega) (by omega)

end Text

/-! ## Decimal literals -/

namespace DecimalLiteral

/-- The text is nothing, or a mark and a whole number. -/
def SpellsExponent (t : Text) (e : Int) : Prop :=
  t = [] ∧ e = 0 ∨
    ∃ (mark : Char) (rest : Text), (mark = 'e' ∨ mark = 'E') ∧ t = mark :: rest ∧ rest.SpellsWhole e

/-- The text is an optional sign, digits with one point and at least one digit, and perhaps
an exponent. -/
inductive Spells : Text → DecimalLiteral → Prop where
  | mk (sign : Sign) {whole fraction scale : Text} {e : Int}
      (wholeDigits : ∀ c ∈ whole, c.isDigit = true)
      (fractionDigits : ∀ c ∈ fraction, c.isDigit = true)
      (someDigit : whole ≠ [] ∨ fraction ≠ []) (exponent : SpellsExponent scale e) :
      Spells (sign.render ++ (whole ++ '.' :: (fraction ++ scale)))
        ⟨sign.isMinus, Text.digitsValue (whole ++ fraction), e - fraction.length⟩

theorem readExponent?_eq_some_iff {t : Text} {e : Int} :
    readExponent? t = some e ↔ SpellsExponent t e := by
  cases t with
  | nil =>
    constructor
    · intro read
      cases read
      exact .inl ⟨rfl, rfl⟩
    · rintro (⟨-, rfl⟩ | ⟨mark, rest, -, impossible, -⟩)
      · rfl
      · cases impossible
  | cons mark rest =>
    constructor
    · intro read
      obtain ⟨sign, digits, taken, rfl⟩ := Text.exists_takeSign rest
      simp only [readExponent?, taken, ← Sign.apply_eq] at read
      split at read
      · rename_i marked
        obtain ⟨is_mark, digits_only⟩ := marked
        cases read
        exact .inr ⟨mark, _, is_mark, rfl, sign, digits, digits_only, rfl, rfl⟩
      · cases read
    · rintro (⟨impossible, -⟩ | ⟨_, _, is_mark, same, sign, digits, digits_only, rest_eq, rfl⟩)
      · cases impossible
      · cases same
        rw [rest_eq]
        simp only [readExponent?, Text.takeSign_digits sign digits_only, ← Sign.apply_eq]
        rw [if_pos ⟨is_mark, digits_only⟩]

/-- No digit goes on with the digits before an exponent. -/
theorem SpellsExponent.head {t : Text} {e : Int} (h : SpellsExponent t e) :
    ∀ c, t.head? = some c → c.isDigit = false := by
  intro c hc
  rcases h with ⟨rfl, -⟩ | ⟨mark, rest, is_mark, rfl, -⟩
  · cases hc
  · cases hc
    rcases is_mark with rfl | rfl <;> rfl

theorem SpellsExponent.isLiteralChar {t : Text} {e : Int} (h : SpellsExponent t e) :
    ∀ c ∈ t, Json.isLiteralChar c = true := by
  rcases h with ⟨rfl, -⟩ | ⟨mark, rest, is_mark, rfl, whole⟩
  · exact List.forall_mem_nil _
  · refine List.forall_mem_cons.2 ⟨?_, whole.isLiteralChar⟩
    rcases is_mark with rfl | rfl <;> rfl

theorem spells_of_read? {t : Text} {l : DecimalLiteral} (h : read? t = some l) : Spells t l := by
  obtain ⟨sign, unsigned, taken, rfl⟩ := Text.exists_takeSign t
  simp only [read?, taken] at h
  have whole_digits : ∀ c ∈ unsigned.takeWhile Char.isDigit, c.isDigit = true :=
    fun c hc => List.mem_takeWhile_imp hc
  have unsigned_eq := List.takeWhile_append_dropWhile (p := Char.isDigit) (l := unsigned)
  generalize unsigned.takeWhile Char.isDigit = whole at h whole_digits unsigned_eq
  split at h
  · rename_i rest behind
    rw [behind] at unsigned_eq
    have fraction_digits : ∀ c ∈ rest.takeWhile Char.isDigit, c.isDigit = true :=
      fun c hc => List.mem_takeWhile_imp hc
    have rest_eq := List.takeWhile_append_dropWhile (p := Char.isDigit) (l := rest)
    generalize rest.takeWhile Char.isDigit = fraction at h fraction_digits rest_eq
    split at h
    · cases h
    · rename_i some_digit
      obtain ⟨e, exponent, rfl⟩ := Option.map_eq_some_iff.1 h
      rw [← unsigned_eq, ← rest_eq]
      refine .mk sign whole_digits fraction_digits ?_ (readExponent?_eq_some_iff.1 exponent)
      rw [List.isEmpty_iff, List.isEmpty_iff] at some_digit
      exact Decidable.not_and_iff_or_not.1 some_digit
  · cases h

theorem read?_of_spells {t : Text} {l : DecimalLiteral} (h : Spells t l) : read? t = some l := by
  obtain ⟨sign, whole_digits, fraction_digits, some_digit, exponent⟩ := h
  rename_i whole fraction scale e
  have unsigned :
      ∀ c, (whole ++ '.' :: (fraction ++ scale)).head? = some c → c ≠ '-' ∧ c ≠ '+' := by
    intro c hc
    cases whole with
    | nil =>
      cases hc
      decide
    | cons d whole =>
      cases hc
      exact Text.ne_sign_of_isDigit (whole_digits c List.mem_cons_self)
  have point : ∀ c, ('.' :: (fraction ++ scale)).head? = some c → c.isDigit = false := by
    rintro c ⟨⟩
    rfl
  have not_empty : ¬ (whole.isEmpty = true ∧ fraction.isEmpty = true) := by
    rw [List.isEmpty_iff, List.isEmpty_iff]
    exact Decidable.not_and_iff_or_not.2 some_digit
  simp only [read?, Text.takeSign_render sign unsigned,
    Text.takeWhile_append_eq whole_digits point, Text.dropWhile_append_eq whole_digits point,
    Text.takeWhile_append_eq fraction_digits exponent.head,
    Text.dropWhile_append_eq fraction_digits exponent.head]
  rw [if_neg not_empty, readExponent?_eq_some_iff.2 exponent, Option.map_some]

theorem read?_eq_some_iff {t : Text} {l : DecimalLiteral} : read? t = some l ↔ Spells t l :=
  ⟨spells_of_read?, read?_of_spells⟩

theorem Spells.isLiteralChar {t : Text} {l : DecimalLiteral} (h : Spells t l) :
    ∀ c ∈ t, Json.isLiteralChar c = true := by
  obtain ⟨sign, whole_digits, fraction_digits, -, exponent⟩ := h
  have digits {s : Text} (all : ∀ c ∈ s, c.isDigit = true) : ∀ c ∈ s, Json.isLiteralChar c = true :=
    fun c hc => Json.isLiteralChar_of_isDigit (all c hc)
  rw [List.forall_mem_append, List.forall_mem_append, List.forall_mem_cons, List.forall_mem_append]
  exact ⟨sign.isLiteralChar, digits whole_digits, rfl, digits fraction_digits,
    exponent.isLiteralChar⟩

end DecimalLiteral

/-! ## With blanks around it and a letter behind it -/

/-- The letters that may end a floating-point literal. -/
def Text.floatingMarks : List Char := ['f', 'F', 'd', 'D']

/-- Trimmed, and without a letter at its end if it has one, the text spells the literal. -/
def Text.SpellsDecimal (t : Text) (l : DecimalLiteral) : Prop :=
  ∃ body, DecimalLiteral.Spells body l ∧
    (trim t = body ∨ ∃ mark ∈ floatingMarks, trim t = body ++ [mark])

/-- Such a letter is no part of a literal. -/
theorem DecimalLiteral.read?_concat_mark (body : Text) {mark : Char}
    (is_mark : mark ∈ Text.floatingMarks) : read? (body ++ [mark]) = none := by
  have foreign : ∀ c ∈ Text.floatingMarks, Json.isLiteralChar c = false := by
    simp only [Text.floatingMarks, List.forall_mem_cons]
    exact ⟨rfl, rfl, rfl, rfl, List.forall_mem_nil _⟩
  rw [Option.eq_none_iff_forall_ne_some]
  intro l read
  have literal := (spells_of_read? read).isLiteralChar mark (List.mem_append_right _ (.head _))
  rw [foreign mark is_mark] at literal
  cases literal

namespace Text

theorem readDouble?_eq_some_iff {t : Text} {x : Double} :
    readDouble? t = some x ↔ ∃ l, t.SpellsDecimal l ∧ x = l.toDouble := by
  constructor
  · intro read
    obtain ⟨l, found, rfl⟩ := Option.map_eq_some_iff.1 read
    refine ⟨l, ?_, rfl⟩
    split at found
    · rename_i whole
      cases found
      exact ⟨trim t, DecimalLiteral.spells_of_read? whole, .inl rfl⟩
    · split at found
      · rename_i marked
        rw [Option.any_eq_true] at marked
        obtain ⟨mark, last, is_mark⟩ := marked
        obtain ⟨body, ends⟩ := List.getLast?_eq_some_iff.1 last
        rw [ends, List.dropLast_concat] at found
        exact ⟨body, DecimalLiteral.spells_of_read? found,
          .inr ⟨mark, of_decide_eq_true is_mark, ends⟩⟩
      · cases found
  · rintro ⟨l, ⟨body, spells, bare | ⟨mark, is_mark, marked⟩⟩, rfl⟩
    · simp only [readDouble?, bare, DecimalLiteral.read?_of_spells spells, Option.map_some]
    · have letter : (body ++ [mark]).getLast?.any (· ∈ ['f', 'F', 'd', 'D']) = true := by
        rw [List.getLast?_concat, Option.any_some]
        exact decide_eq_true is_mark
      simp only [readDouble?, marked, DecimalLiteral.read?_concat_mark body is_mark, letter,
        List.dropLast_concat, DecimalLiteral.read?_of_spells spells, if_true, Option.map_some]

end Text

/-! ## Numbers -/

namespace Value

/-- The text spells a number: without a point a whole one of 32 bits, and with a point a
decimal literal. -/
inductive IsNumber (t : Text) : Prop where
  | whole {n : Int} (noPoint : '.' ∉ t) (spelled : t.SpellsWhole n) (lower : -2147483648 ≤ n)
      (upper : n ≤ 2147483647) : IsNumber t
  | decimal {l : DecimalLiteral} (point : '.' ∈ t) (spelled : t.SpellsDecimal l) : IsNumber t

section
variable {t : Text}

theorem readNumber?_of_point (point : '.' ∈ t) :
    readNumber? t = (Text.readDouble? t).map double := by
  rw [readNumber?, if_pos (List.contains_iff_mem.2 point)]

theorem readNumber?_of_noPoint (noPoint : '.' ∉ t) :
    readNumber? t = (Text.readInt32? t).map int := by
  rw [readNumber?, if_neg (mt List.contains_iff_mem.1 noPoint)]

theorem readNumber?_eq_int_iff {n : Int32} :
    readNumber? t = some (int n) ↔ '.' ∉ t ∧ t.SpellsWhole n.toInt := by
  by_cases point : '.' ∈ t
  · simp [readNumber?_of_point point, point]
  · simp [readNumber?_of_noPoint point, point, Text.readInt32?_eq_some_iff]

theorem readNumber?_eq_double_iff {x : Double} :
    readNumber? t = some (double x) ↔ '.' ∈ t ∧ ∃ l, t.SpellsDecimal l ∧ x = l.toDouble := by
  by_cases point : '.' ∈ t
  · simp [readNumber?_of_point point, point, Text.readDouble?_eq_some_iff]
  · simp [readNumber?_of_noPoint point, point]

theorem readNumber?_isSome_iff : (readNumber? t).isSome = true ↔ IsNumber t := by
  constructor
  · intro read
    obtain ⟨value, found⟩ := Option.isSome_iff_exists.1 read
    by_cases point : '.' ∈ t
    · rw [readNumber?_of_point point] at found
      obtain ⟨x, read, -⟩ := Option.map_eq_some_iff.1 found
      obtain ⟨l, spelled, -⟩ := Text.readDouble?_eq_some_iff.1 read
      exact .decimal point spelled
    · rw [readNumber?_of_noPoint point] at found
      obtain ⟨n, read, -⟩ := Option.map_eq_some_iff.1 found
      exact .whole point (Text.readInt32?_eq_some_iff.1 read) n.le_toInt
        (Int.le_of_lt_add_one n.toInt_lt)
  · intro number
    cases number with
    | @whole n noPoint spelled lower upper =>
      have fits : (Int32.ofInt n).toInt = n :=
        Int32.toInt_ofInt_of_le lower (Int.lt_add_one_of_le upper)
      rw [← fits] at spelled
      rw [readNumber?_eq_int_iff.2 ⟨noPoint, spelled⟩, Option.isSome_some]
    | decimal point spelled =>
      rw [readNumber?_eq_double_iff.2 ⟨point, _, spelled, rfl⟩, Option.isSome_some]

end

/-- **Which texts are numbers.**  A text without a point is a whole number exactly if it is
an optional sign and digits of a number of 32 bits; a text with a point is a double exactly
if, trimmed and without at most one letter at its end, it is a decimal literal; and every
other text is no number. -/
theorem readNumber?_exact (t : Text) :
    (∀ n : Int32, readNumber? t = some (int n) ↔ '.' ∉ t ∧ t.SpellsWhole n.toInt) ∧
    (∀ x : Double, readNumber? t = some (double x) ↔
      '.' ∈ t ∧ ∃ l, t.SpellsDecimal l ∧ x = l.toDouble) ∧
    (readNumber? t = none ↔ ¬ IsNumber t) := by
  refine ⟨fun n => readNumber?_eq_int_iff, fun x => readNumber?_eq_double_iff, ?_⟩
  rw [← readNumber?_isSome_iff, Option.not_isSome_iff_eq_none]

/-- Zeros may stand in front, two letters at the end may not. -/
example : readNumber? "+002147483647".toList = some (int 2147483647) ∧
    readNumber? "2147483648".toList = none ∧ (readNumber? " .5e+3f ".toList).isSome = true ∧
    readNumber? "1.5ff".toList = none :=
  ⟨rfl, rfl, rfl, rfl⟩

end Value
end Walkthrough
