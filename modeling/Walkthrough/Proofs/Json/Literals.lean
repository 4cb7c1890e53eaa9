import Walkthrough.Json
import Walkthrough.Proofs.Double.Shortest
import Walkthrough.Proofs.Json.Lexing
import Walkthrough.Proofs.Text.Digits

/-!
# The numbers that are written

Every number that the service writes is a literal in range: an integer (`readable_ofNat`,
`readable_ofInt`) and the shortest digits of a double, in either of their layouts
(`readable_ofDouble`).

* `take?_text` reads a literal that is put together from well-formed parts;
* `isInRange_eq` is the test of the range for a literal whose digits all count;
* `isFiniteProduct_of_le_largest` is that test for the digits of a double.
-/

namespace Walkthrough.Json

namespace NumberLiteral

/-! ## The range -/

section
variable {m n : Nat}

theorem isFiniteProduct_mono {p q : Nat} (h : isFiniteProduct n q = true) (significand : m ≤ n)
    (exponent : p ≤ q) : isFiniteProduct m p = true := by
  simp only [isFiniteProduct, Bool.or_eq_true, Bool.and_eq_true, decide_eq_true_eq,
    Int.toNat_natCast] at h ⊢
  rcases h with (zero | negative) | ⟨bound, finite⟩
  · exact .inl (.inl (by omega))
  · omega
  · refine .inr ⟨by omega, Double.isFinite_times_of_le finite ?_ ?_⟩
    · simp only [Double.magnitude_nearest]
      exact Double.nearestMagnitude_mono significand
    · simp only [Double.magnitude_nearest]
      exact Double.nearestMagnitude_mono (Nat.pow_le_pow_right (by decide) exponent)

theorem isFiniteProduct_of_neg {e : Int} (n : Nat) (negative : e < 0) :
    isFiniteProduct n e = true := by
  simp [isFiniteProduct, negative]

/-- Seventeen digits times a power of ten have a finite product up to the greatest double
itself, though both factors are rounded first. -/
theorem isFiniteProduct_of_le_largest {p : Nat} (few : n ≤ Nat.pow 10 17)
    (h : n * Nat.pow 10 p ≤ Double.largest) : isFiniteProduct n p = true := by
  by_cases zero : n = 0
  · simp [isFiniteProduct, zero]
  by_cases low : p ≤ 291
  · have reached : isFiniteProduct (Nat.pow 10 17) (291 : Nat) = true := by decide +kernel
    exact isFiniteProduct_mono reached few low
  · have high : p < 309 := by
      refine Nat.lt_of_not_le fun beyond => ?_
      have less : Double.largest < Nat.pow 10 109 * Nat.pow 10 200 := by decide +kernel
      have grows : Nat.pow 10 109 ≤ Nat.pow 10 (p - 200) :=
        Nat.pow_le_pow_right (by decide) (by omega)
      have split : Nat.pow 10 (p - 200) * Nat.pow 10 200 = Nat.pow 10 p :=
        Nat.pow_sub_mul_pow 10 (by omega)
      have factor : Nat.pow 10 p ≤ n * Nat.pow 10 p :=
        Nat.le_mul_of_pos_left _ (Nat.pos_of_ne_zero zero)
      have reached : Nat.pow 10 109 * Nat.pow 10 200 ≤ Nat.pow 10 p :=
        split ▸ Nat.mul_le_mul_right _ grows
      exact Nat.not_le.2 less (Nat.le_trans reached (Nat.le_trans factor h))
    have all : ∀ k < 18, isFiniteProduct
        (min (Nat.pow 10 17) (Double.largest / Nat.pow 10 (291 + k))) (291 + k : Nat) = true := by
      decide +kernel
    have reached := all (p - 291) (by omega)
    have p_eq : 291 + (p - 291) = p := by omega
    rw [p_eq] at reached
    refine isFiniteProduct_mono reached (Nat.le_min.2 ⟨few, ?_⟩) (Nat.le_refl p)
    exact (Nat.le_div_iff_mul_le (Nat.pow_pos (by decide))).2 h

end

/-! ## A literal from its parts -/

/-- The grammar of numbers, part by part. -/
structure WellFormed (l : NumberLiteral) : Prop where
  sign : l.sign = [] ∨ l.sign = ['-']
  whole : Text.isDigits l.whole = true
  /-- No zero stands in front of other digits. -/
  leading : ∀ rest, l.whole = '0' :: rest → rest = []
  fraction : l.fraction = [] ∨ ∃ digits, Text.isDigits digits = true ∧ l.fraction = '.' :: digits
  exponent : l.exponent = [] ∨ ∃ sign digits, (sign = [] ∨ sign = ['-'] ∨ sign = ['+']) ∧
    Text.isDigits digits = true ∧ l.exponent = 'e' :: (sign ++ digits)

/-- No digits go on with the text. -/
def EndsDigits (t : Text) : Prop := ∀ c, t.head? = some c → c.isDigit = false

theorem EndsDigits.nil : EndsDigits [] := by
  intro c hc
  cases hc

theorem EndsDigits.cons {c : Char} (h : c.isDigit = false) (t : Text) : EndsDigits (c :: t) := by
  intro d hd
  exact Option.some.inj hd ▸ h

theorem digitsOf_digits {digits rest : Text} (h : Text.isDigits digits = true)
    (ends : EndsDigits rest) : digitsOf (digits ++ rest) = (digits, rest) := by
  have all := (Text.isDigits_iff.1 h).2
  have stops : rest.takeWhile Char.isDigit = [] ∧ rest.dropWhile Char.isDigit = rest := by
    cases rest with
    | nil => exact ⟨rfl, rfl⟩
    | cons c rest => simp [ends c rfl]
  rw [digitsOf, List.takeWhile_append_of_pos all, List.dropWhile_append_of_pos all, stops.1,
    stops.2, List.append_nil]

theorem takeWhole?_digits {digits rest : Text} (h : Text.isDigits digits = true)
    (leading : ∀ rest, digits = '0' :: rest → rest = []) (ends : EndsDigits rest) :
    takeWhole? (digits ++ rest) = some (digits, rest) := by
  rw [takeWhole?, digitsOf_digits h ends]
  split
  · rename_i none
    exact absurd (congrArg Prod.fst none) (Text.isDigits_iff.1 h).1
  · rename_i zero
    cases leading _ (congrArg Prod.fst zero)
  · rfl

theorem takeFraction?_digits {digits rest : Text} (h : Text.isDigits digits = true)
    (ends : EndsDigits rest) :
    takeFraction? ('.' :: digits ++ rest) = some ('.' :: digits, rest) := by
  rw [List.cons_append, takeFraction?, digitsOf_digits h ends]
  split
  · exact absurd (congrArg Prod.fst ‹_›) (Text.isDigits_iff.1 h).1
  · cases ‹_ = _›
    rfl

theorem takeExponent?_digits {sign digits : Text}
    (h_sign : sign = [] ∨ sign = ['-'] ∨ sign = ['+']) (h : Text.isDigits digits = true) :
    takeExponent? ('e' :: (sign ++ digits)) = some ('e' :: (sign ++ digits), []) := by
  obtain ⟨nonempty, all⟩ := Text.isDigits_iff.1 h
  have unsigned : takeExponentSign digits = ([], digits) := by
    obtain ⟨c, rest, rfl⟩ := List.exists_cons_of_ne_nil nonempty
    have digit := all c List.mem_cons_self
    unfold takeExponentSign
    split
    · rename_i same
      rw [(List.cons.inj same).1] at digit
      cases digit
    · rename_i same
      rw [(List.cons.inj same).1] at digit
      cases digit
    · rfl
  have split_sign : takeExponentSign (sign ++ digits) = (sign, digits) := by
    rcases h_sign with rfl | rfl | rfl
    · exact unsigned
    · rfl
    · rfl
  have whole := digitsOf_digits h .nil
  rw [List.append_nil] at whole
  simp only [takeExponent?, true_or, if_true, split_sign, whole]
  rfl

theorem takeMinus_digits {sign digits rest : Text} (h_sign : sign = [] ∨ sign = ['-'])
    (h : Text.isDigits digits = true) :
    takeMinus (sign ++ (digits ++ rest)) = (sign, digits ++ rest) := by
  obtain ⟨nonempty, all⟩ := Text.isDigits_iff.1 h
  rcases h_sign with rfl | rfl
  · obtain ⟨c, digits, rfl⟩ := List.exists_cons_of_ne_nil nonempty
    have digit := all c List.mem_cons_self
    simp only [List.nil_append, List.cons_append]
    unfold takeMinus
    split
    · rename_i same
      rw [(List.cons.inj same).1] at digit
      cases digit
    · rfl
  · rfl

/-- A well-formed literal is read off its text, and nothing is left. -/
theorem take?_text {l : NumberLiteral} (h : l.WellFormed) : take? l.text = some (l, []) := by
  obtain ⟨sign, whole, fraction, exponent⟩ := l
  obtain ⟨h_sign, h_whole, leading, h_fraction, h_exponent⟩ := h
  dsimp only at *
  have exponent_taken : takeExponent? exponent = some (exponent, []) := by
    rcases h_exponent with rfl | ⟨mark_sign, digits, mark_sign_eq, h_digits, rfl⟩
    · rfl
    · exact takeExponent?_digits mark_sign_eq h_digits
  have exponent_ends : EndsDigits exponent := by
    rcases h_exponent with rfl | ⟨mark_sign, digits, -, -, rfl⟩
    · exact .nil
    · exact .cons rfl _
  have fraction_taken : takeFraction? (fraction ++ exponent) = some (fraction, exponent) := by
    rcases h_fraction with rfl | ⟨digits, h_digits, rfl⟩
    · rcases h_exponent with rfl | ⟨mark_sign, digits, -, -, rfl⟩ <;> rfl
    · exact takeFraction?_digits h_digits exponent_ends
  have fraction_ends : EndsDigits (fraction ++ exponent) := by
    rcases h_fraction with rfl | ⟨digits, -, rfl⟩
    · exact exponent_ends
    · exact .cons rfl _
  have text_eq : text ⟨sign, whole, fraction, exponent⟩ =
      sign ++ (whole ++ (fraction ++ exponent)) := by
    simp only [text, List.append_assoc]
  rw [text_eq, take?, takeMinus_digits h_sign h_whole]
  simp only [takeWhole?_digits h_whole leading fraction_ends, fraction_taken, exponent_taken,
    Option.map_some]

/-! ## Literals in range -/

theorem appendDigits_of_lt {t : Text} {n : Nat} (h : Nat.ofDigitChars 10 t n < significandLimit) :
    appendDigits n t = (Nat.ofDigitChars 10 t n, 0) := by
  induction t generalizing n with
  | nil => rfl
  | cons c t ih =>
    rw [Nat.ofDigitChars_cons] at h ⊢
    rw [appendDigits, if_pos (Nat.lt_of_le_of_lt (Text.le_ofDigitChars t _) h), ih h]

/-- The test of the range when all digits count. -/
theorem isInRange_eq {l : NumberLiteral}
    (h : Text.digitsValue (l.whole ++ l.fraction.tail) < significandLimit) :
    l.isInRange = isFiniteProduct (Text.digitsValue (l.whole ++ l.fraction.tail))
      (l.exponentValue - l.fraction.tail.length) := by
  rw [Text.digitsValue, Nat.ofDigitChars_append] at h
  have whole := appendDigits_of_lt (Nat.lt_of_le_of_lt (Text.le_ofDigitChars _ _) h)
  have fraction := appendDigits_of_lt h
  simp only [isInRange, whole, fraction, Text.digitsValue, Nat.ofDigitChars_append, Nat.sub_zero,
    Int.natCast_zero, Int.add_zero]

/-! ## Written numbers -/

/-- A number in range without a sign. -/
def Unsigned (t : Text) : Prop :=
  ∃ l : NumberLiteral, l.sign = [] ∧ l.WellFormed ∧ l.isInRange = true ∧ l.text = t

theorem Unsigned.readable {t : Text} (h : Unsigned t) (depth : Nat) :
    Readable depth (.number t) := by
  obtain ⟨l, -, formed, inRange, rfl⟩ := h
  exact .number depth (take?_text formed) inRange

theorem Unsigned.readable_minus {t : Text} (h : Unsigned t) (depth : Nat) :
    Readable depth (.number ('-' :: t)) := by
  obtain ⟨l, unsigned, formed, inRange, rfl⟩ := h
  have signed : WellFormed { l with sign := ['-'] } := { formed with sign := .inr rfl }
  have text_eq : text { l with sign := ['-'] } = '-' :: l.text := by
    simp only [text, unsigned, List.cons_append, List.nil_append]
  have whole := take?_text signed
  rw [text_eq] at whole
  exact .number depth whole inRange

theorem wellFormed_ofNat (n : Nat) : WellFormed ⟨[], Text.ofNat n, [], []⟩ := by
  refine ⟨.inl rfl, Text.isDigits_ofNat n, ?_, .inl rfl, .inl rfl⟩
  intro rest zero
  by_cases n_zero : n = 0
  · subst n_zero
    exact (List.cons.inj zero).2.symm
  · obtain ⟨first, others, leads, not_zero⟩ := Text.exists_cons_ofNat n_zero
    exact absurd (List.cons.inj (leads.symm.trans zero)).1 not_zero

theorem unsigned_ofNat {n : Nat} (h : n < significandLimit) : Unsigned (Text.ofNat n) := by
  have value : Text.digitsValue (Text.ofNat n ++ []) = n := by
    rw [List.append_nil, Text.digitsValue_ofNat]
  refine ⟨⟨[], Text.ofNat n, [], []⟩, rfl, wellFormed_ofNat n, ?_, ?_⟩
  · have reached : isFiniteProduct significandLimit (0 : Nat) = true := by decide +kernel
    have inRange := isInRange_eq (l := ⟨[], Text.ofNat n, [], []⟩) (value.symm ▸ h)
    rw [inRange, List.tail_nil, value]
    exact isFiniteProduct_mono reached (Nat.le_of_lt h) (Nat.le_refl 0)
  · simp only [text, List.nil_append, List.append_nil]

theorem digitsValue_lt_limit {t : Text} (digits : ∀ c ∈ t, c.isDigit = true)
    (few : t.length ≤ 18) : Text.digitsValue t < significandLimit :=
  calc Text.digitsValue t < Nat.pow 10 t.length := Text.digitsValue_lt digits
    _ ≤ Nat.pow 10 18 := Nat.pow_le_pow_right (by decide) few
    _ < significandLimit := by decide

theorem isDigit_of_mem_zeros {k : Nat} : ∀ c ∈ List.replicate k '0', c.isDigit = true := by
  intro c hc
  rw [List.eq_of_mem_replicate hc]
  rfl

/-- With a fraction and no exponent, the digits alone decide. -/
theorem unsigned_fraction {whole fraction : Text} (h_whole : Text.isDigits whole = true)
    (leading : ∀ rest, whole = '0' :: rest → rest = []) (h_fraction : Text.isDigits fraction = true)
    (h : Text.digitsValue (whole ++ fraction) < significandLimit) :
    Unsigned (whole ++ ['.'] ++ fraction) := by
  refine ⟨⟨[], whole, '.' :: fraction, []⟩, rfl, ?_, ?_, ?_⟩
  · exact ⟨.inl rfl, h_whole, leading, .inr ⟨fraction, h_fraction, rfl⟩, .inl rfl⟩
  · rw [isInRange_eq h]
    apply isFiniteProduct_of_neg
    have some_digit := List.length_pos_iff.2 (Text.isDigits_iff.1 h_fraction).1
    have no_exponent : exponentValue ⟨[], whole, '.' :: fraction, []⟩ = 0 := rfl
    rw [no_exponent, List.tail_cons]
    omega
  · simp only [text, List.nil_append, List.append_nil, List.append_assoc, List.singleton_append]

/-- An exponent is written with its sign and gives itself back. -/
theorem exists_exponent (plus : Bool) (e : Int) :
    ∃ sign : Text, (sign = [] ∨ sign = ['-'] ∨ sign = ['+']) ∧
      (if plus = true ∧ 0 ≤ e then ['+'] else []) ++ Text.ofInt e = sign ++ Text.ofNat e.natAbs ∧
      ∀ whole fraction : Text,
        exponentValue ⟨[], whole, fraction, 'e' :: (sign ++ Text.ofNat e.natAbs)⟩ = e := by
  have value := Text.digitsValue_ofNat e.natAbs
  by_cases negative : e < 0
  · refine ⟨['-'], .inr (.inl rfl), ?_, fun whole fraction => ?_⟩
    · rw [if_neg (by omega), Text.ofInt, if_pos negative]
      rfl
    · simp only [exponentValue, List.tail_cons, List.singleton_append, Text.takeSign, if_true,
        value]
      omega
  · have written : Text.ofInt e = Text.ofNat e.natAbs := if_neg negative
    cases plus with
    | true =>
      refine ⟨['+'], .inr (.inr rfl), ?_, fun whole fraction => ?_⟩
      · rw [if_pos ⟨rfl, by omega⟩, written]
      · simp only [exponentValue, List.tail_cons, List.singleton_append, Text.takeSign, value]
        simp only [Bool.false_eq_true, if_false]
        omega
    | false =>
      refine ⟨[], .inl rfl, ?_, fun whole fraction => ?_⟩
      · rw [if_neg (by simp), written]
      · have unsigned := Text.takeSign_of_isDigits (Text.isDigits_ofNat e.natAbs)
        simp only [exponentValue, List.tail_cons, List.nil_append, unsigned, value,
          Bool.false_eq_true, if_false]
        omega

section
variable {first : Char} {rest : Text} (digits : ∀ c ∈ first :: rest, c.isDigit = true)
  (few : (first :: rest).length ≤ 18)
include digits few

/-- All digits stand behind the point, after zeros that do not count. -/
theorem unsigned_behind (zeros : Nat) :
    Unsigned (['0'] ++ ['.'] ++ (List.replicate zeros '0' ++ first :: rest)) := by
  have value : Text.digitsValue (['0'] ++ (List.replicate zeros '0' ++ first :: rest)) =
      Text.digitsValue (first :: rest) := by
    have none : Nat.ofDigitChars 10 ['0'] 0 = 0 := rfl
    simp only [Text.digitsValue, Nat.ofDigitChars_append, none,
      Text.ofDigitChars_replicate_zero, Nat.zero_mul]
  have fraction : Text.isDigits (List.replicate zeros '0' ++ first :: rest) = true := by
    refine Text.isDigits_iff.2 ⟨List.append_ne_nil_of_right_ne_nil _ (List.cons_ne_nil _ _), ?_⟩
    exact List.forall_mem_append.2 ⟨isDigit_of_mem_zeros, digits⟩
  have zero : Text.isDigits ['0'] = true := rfl
  exact unsigned_fraction zero (fun _ same => (List.cons.inj same).2.symm) fraction
    (value ▸ digitsValue_lt_limit digits few)

/-- The first digits stand in front of the point, with zeros up to it if there are too few,
and what is left of them behind it. -/
theorem unsigned_around (leads : first ≠ '0') {width : Nat} (near : width < 16) :
    Unsigned ((first :: rest).take (width + 1) ++
      List.replicate (width + 1 - (first :: rest).length) '0' ++ ['.'] ++
        if ((first :: rest).drop (width + 1)).isEmpty then ['0']
        else (first :: rest).drop (width + 1)) := by
  generalize padding_eq : width + 1 - (first :: rest).length = padding
  have whole : ∀ c ∈ (first :: rest).take (width + 1) ++ List.replicate padding '0',
      c.isDigit = true :=
    List.forall_mem_append.2 ⟨fun c hc => digits c (List.mem_of_mem_take hc), isDigit_of_mem_zeros⟩
  have leading : ∀ others, (first :: rest).take (width + 1) ++ List.replicate padding '0' =
      '0' :: others → others = [] := by
    intro others same
    rw [List.take_succ_cons, List.cons_append] at same
    exact absurd (List.cons.inj same).1 leads
  have whole_length : ((first :: rest).take (width + 1) ++
      List.replicate padding '0').length = width + 1 := by
    rw [List.length_append, List.length_take, List.length_replicate]
    omega
  have behind : ∀ c ∈ (first :: rest).drop (width + 1), c.isDigit = true :=
    fun c hc => digits c (List.mem_of_mem_drop hc)
  have behind_length : ((first :: rest).drop (width + 1)).length =
    (first :: rest).length - (width + 1) := List.length_drop
  generalize (first :: rest).take (width + 1) ++ List.replicate padding '0' = front at *
  generalize (first :: rest).drop (width + 1) = back at *
  have front_digits : Text.isDigits front = true :=
    Text.isDigits_iff.2 ⟨List.ne_nil_of_length_pos (by omega), whole⟩
  split
  · refine unsigned_fraction front_digits leading rfl (digitsValue_lt_limit ?_ ?_)
    · exact List.forall_mem_append.2 ⟨whole, isDigit_of_mem_zeros (k := 1)⟩
    · rw [List.length_append, List.length_singleton]
      omega
  · rename_i nonempty
    have back_ne : back ≠ [] := by simpa using nonempty
    have back_pos := List.length_pos_iff.2 back_ne
    refine unsigned_fraction front_digits leading (Text.isDigits_iff.2 ⟨back_ne, behind⟩)
      (digitsValue_lt_limit (List.forall_mem_append.2 ⟨whole, behind⟩) ?_)
    rw [List.length_append]
    omega

theorem unsigned_positional (leads : first ≠ '0') {point : Int} (near : point ≤ 16) :
    Unsigned (Double.Layout.positional (first :: rest) point) := by
  unfold Double.Layout.positional
  split
  · have written := unsigned_behind digits few (-point).toNat
    rwa [← List.append_assoc] at written
  · obtain ⟨width, width_eq⟩ : ∃ width, point.toNat = width + 1 := ⟨point.toNat - 1, by omega⟩
    rw [width_eq]
    exact unsigned_around digits few leads (by omega)

/-- The mantissa and the exponent stand for the digits times a power of ten. -/
theorem unsigned_scientific {plus : Bool} {e : Int}
    (inRange : isFiniteProduct (Text.digitsValue (first :: rest)) (e - rest.length) = true) :
    Unsigned (Double.Layout.scientific plus (first :: rest) e) := by
  obtain ⟨sign, sign_eq, written, value⟩ := exists_exponent plus e
  obtain ⟨first_digit, rest_digits⟩ := List.forall_mem_cons.1 digits
  obtain ⟨fraction, formed, tail_eq, text_eq⟩ : ∃ fraction : Text,
      (fraction = [] ∨ ∃ ds, Text.isDigits ds = true ∧ fraction = '.' :: ds) ∧
      fraction.tail = rest ∧ Double.Layout.scientific plus (first :: rest) e =
        [first] ++ fraction ++ 'e' :: (sign ++ Text.ofNat e.natAbs) := by
    cases rest with
    | nil =>
      refine ⟨[], .inl rfl, rfl, ?_⟩
      rw [Double.Layout.scientific, List.append_assoc, written]
      rfl
    | cons second rest =>
      refine ⟨'.' :: second :: rest, .inr ⟨second :: rest, ?_, rfl⟩, rfl, ?_⟩
      · exact Text.isDigits_iff.2 ⟨List.cons_ne_nil _ _, rest_digits⟩
      · rw [Double.Layout.scientific, List.append_assoc, written]
        · simp
        · exact fun none => absurd none (List.cons_ne_nil _ _)
  refine ⟨⟨[], [first], fraction, 'e' :: (sign ++ Text.ofNat e.natAbs)⟩, rfl, ?_, ?_, ?_⟩
  · refine ⟨.inl rfl, ?_, fun others same => (List.cons.inj same).2.symm, formed,
      .inr ⟨sign, _, sign_eq, Text.isDigits_ofNat _, rfl⟩⟩
    exact Text.isDigits_iff.2 ⟨List.cons_ne_nil _ _, List.forall_mem_singleton.2 first_digit⟩
  · have small := digitsValue_lt_limit digits few
    rw [← tail_eq] at small inRange
    have counted := isInRange_eq (l := ⟨[], [first], fraction, 'e' :: (sign ++
      Text.ofNat e.natAbs)⟩) small
    rw [counted, value]
    exact inRange
  · rw [text_eq]
    rfl

end

/-! ## Integers and doubles -/

theorem exists_zeros (t : Text) :
    ∃ zeros, t = Double.Layout.dropTrailingZeros t ++ List.replicate zeros '0' := by
  obtain ⟨zeros, split⟩ := Text.exists_rdropWhile_append (fun _ => beq_iff_eq.1) t
  exact ⟨zeros, split.symm⟩

/-- The digits of a number that is not zero, less the zeros at their end. -/
theorem exists_kept {n : Nat} (h : n ≠ 0) :
    ∃ first rest zeros, Double.Layout.dropTrailingZeros (Text.ofNat n) = first :: rest ∧
      first ≠ '0' ∧ (∀ c ∈ first :: rest, c.isDigit = true) ∧
      (Text.ofNat n).length = (first :: rest).length + zeros ∧
      n = Text.digitsValue (first :: rest) * Nat.pow 10 zeros := by
  obtain ⟨leading, others, leads, not_zero⟩ := Text.exists_cons_ofNat h
  obtain ⟨zeros, split⟩ := exists_zeros (Text.ofNat n)
  have value := Text.digitsValue_ofNat n
  have digits : ∀ c ∈ Text.ofNat n, c.isDigit = true := fun c => Text.isDigit_of_mem_ofNat
  generalize Double.Layout.dropTrailingZeros (Text.ofNat n) = kept at split
  rw [split] at value digits leads
  cases kept with
  | nil =>
    have zero : leading ∈ List.replicate zeros '0' := by
      rw [← List.nil_append (List.replicate zeros '0'), leads]
      exact List.mem_cons_self
    exact absurd (List.eq_of_mem_replicate zero) not_zero
  | cons first rest =>
    refine ⟨first, rest, zeros, rfl, ?_, ?_, ?_, ?_⟩
    · rwa [(List.cons.inj leads).1]
    · exact fun c hc => digits c (List.mem_append_left _ hc)
    · rw [split, List.length_append, List.length_replicate]
    · rw [← value, Text.digitsValue, Nat.ofDigitChars_append, Text.ofDigitChars_replicate_zero]
      rfl

/-- Without their trailing zeros, digits in range stay in range. -/
theorem isFiniteProduct_kept {coefficient kept zeros : Nat} {exponent : Int}
    (few : coefficient ≤ Nat.pow 10 17) (h : coefficient = kept * Nat.pow 10 zeros)
    (le_largest : coefficient * Nat.pow 10 exponent.toNat ≤
      Double.largest * Nat.pow 10 (-exponent).toNat) :
    isFiniteProduct kept (exponent + zeros) = true := by
  by_cases negative : exponent + zeros < 0
  · exact isFiniteProduct_of_neg kept negative
  obtain ⟨p, p_eq⟩ := Int.eq_ofNat_of_zero_le (Int.not_lt.1 negative)
  rw [p_eq]
  have kept_le : kept ≤ coefficient := by
    rw [h]
    exact Nat.le_mul_of_pos_right kept (Nat.pow_pos (by decide))
  refine isFiniteProduct_of_le_largest (Nat.le_trans kept_le few) ?_
  generalize above_eq : exponent.toNat = above at le_largest
  generalize below_eq : (-exponent).toNat = below at le_largest
  have powers : Nat.pow 10 zeros * Nat.pow 10 above = Nat.pow 10 p * Nat.pow 10 below := by
    have exponents : zeros + above = p + below := by omega
    simp only [Nat.pow_eq, ← Nat.pow_add, exponents]
  refine Nat.le_of_mul_le_mul_right ?_ (Nat.pow_pos (by decide) : 0 < Nat.pow 10 below)
  calc kept * Nat.pow 10 p * Nat.pow 10 below = kept * Nat.pow 10 zeros * Nat.pow 10 above := by
        rw [Nat.mul_assoc, ← powers, Nat.mul_assoc]
    _ ≤ Double.largest * Nat.pow 10 below := by rwa [← h]

/-- The finite doubles are written as numbers in range, but for their sign. -/
theorem unsigned_writeMagnitude {d : Double} (finite : d.isFinite = true) :
    Unsigned (numberLayout.writeMagnitude d) := by
  unfold Double.Layout.writeMagnitude
  split
  · have zero : Text.isDigits ['0'] = true := rfl
    exact unsigned_fraction zero (fun _ same => (List.cons.inj same).2.symm) zero (by decide)
  · rename_i nonzero
    rw [Bool.not_eq_true] at nonzero
    obtain ⟨coefficient, exponent, shortest_eq, -, positive, bound⟩ :=
      Double.shortest_spec nonzero .toEven
    have le_largest := Double.shortest_le_largest finite nonzero shortest_eq
    obtain ⟨first, rest, zeros, kept_eq, leads, digits, length_eq, value⟩ :=
      exists_kept (Nat.ne_of_gt positive)
    have length_le : (Text.ofNat coefficient).length ≤ 18 := by
      refine (Nat.length_toDigits_le_iff (by decide) (by decide)).2 ?_
      exact Nat.lt_of_le_of_lt bound (by decide)
    have few : (first :: rest).length ≤ 18 := by omega
    have tie_eq : numberLayout.tie = .toEven := rfl
    dsimp only
    rw [tie_eq, shortest_eq]
    dsimp only
    rw [kept_eq]
    split
    · rename_i near
      refine unsigned_positional digits few leads ?_
      have greatest : numberLayout.greatestPositional = 15 := rfl
      omega
    · refine unsigned_scientific digits few ?_
      have exponent_eq : exponent + (Text.ofNat coefficient).length - 1 - rest.length =
          exponent + zeros := by
        rw [length_eq, List.length_cons]
        omega
      rw [exponent_eq]
      exact isFiniteProduct_kept bound value le_largest

end NumberLiteral

section
variable (depth : Nat)

theorem readable_ofNat {n : Nat} (h : n < NumberLiteral.significandLimit) :
    Readable depth (ofNat n) :=
  (NumberLiteral.unsigned_ofNat h).readable depth

theorem readable_ofInt {n : Int} (h : n.natAbs < NumberLiteral.significandLimit) :
    Readable depth (ofInt n) := by
  have unsigned := NumberLiteral.unsigned_ofNat h
  unfold ofInt Text.ofInt
  split
  · exact unsigned.readable_minus depth
  · exact unsigned.readable depth

/-- A double is a number that is read back, or nothing if it is not finite. -/
theorem readable_ofDouble (x : Double) : Readable depth (ofDouble x) := by
  unfold ofDouble
  split
  · rename_i finite
    have unsigned := NumberLiteral.unsigned_writeMagnitude finite
    unfold Double.Layout.write
    split
    · exact unsigned.readable_minus depth
    · exact unsigned.readable depth
  · exact .null depth

end

end Walkthrough.Json
