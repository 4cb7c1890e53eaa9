import Walkthrough.Proofs.StraightLine.Expressions

/-!
# Displayed values read back

What is displayed of an integer, of a text without semicolons, or of a list of such
elements is inferred to be the same value, whatever the variables are: `infer_display`.
A number needs no mark, a text is known by its quotation marks, and a list is cut at the
commas between its elements only.
-/

namespace Walkthrough

/-! ## Integers -/

namespace StraightLine

def Sign.ofInt (n : Int) : Sign := if n < 0 then .minus else .unsigned

theorem Sign.apply_ofInt (n : Int) : (ofInt n).apply n.natAbs = n := by
  unfold ofInt
  split
  · simp only [apply]
    omega
  · simp only [apply]
    omega

theorem Sign.render_ofInt (n : Int) :
    (ofInt n).render ++ Text.ofNat n.natAbs = Text.ofInt n := by
  unfold ofInt Text.ofInt
  split <;> rfl

theorem Sign.apply_digitsValue (n : Int) :
    (ofInt n).apply (Text.digitsValue (Text.ofNat n.natAbs)) = n := by
  rw [Text.digitsValue_ofNat, apply_ofInt]

/-- The numeral that an integer is displayed as. -/
def Numeral.ofInt32 (n : Int32) : Numeral where
  sign := .ofInt n.toInt
  digits := Text.ofNat n.toInt.natAbs
  isDigits := Text.isDigits_ofNat _
  lower := by
    rw [Sign.apply_digitsValue]
    exact n.le_toInt
  upper := by
    rw [Sign.apply_digitsValue]
    exact Int.le_of_lt_add_one n.toInt_lt

theorem Numeral.render_ofInt32 (n : Int32) : (ofInt32 n).render = (Value.int n).display :=
  Sign.render_ofInt n.toInt

theorem Numeral.value_ofInt32 (n : Int32) : (ofInt32 n).value = .int n := by
  rw [value, ofInt32, Sign.apply_digitsValue, Int32.ofInt_toInt]

end StraightLine

namespace Value

theorem trimmed_display_int (n : Int32) : Text.Trimmed (int n).display := by
  rw [← StraightLine.Numeral.render_ofInt32]
  exact StraightLine.Numeral.trimmed _

theorem readNumber?_display_int (n : Int32) : readNumber? (int n).display = some (int n) := by
  rw [← StraightLine.Numeral.render_ofInt32, StraightLine.Numeral.readNumber?,
    StraightLine.Numeral.value_ofInt32]

theorem not_mem_display_int (n : Int32) {c : Char} (digit : c.isDigit = false) (plus : c ≠ '+')
    (minus : c ≠ '-') : c ∉ (int n).display := by
  rw [← StraightLine.Numeral.render_ofInt32]
  exact StraightLine.Numeral.not_mem _ digit plus minus

/-! ## Elements of lists -/

/-- A value that can be read back from a displayed list. -/
inductive IsLegibleElement : Value → Prop where
  | int (n : Int32) : IsLegibleElement (.int n)
  | text {t : Text} (noComma : ',' ∉ t) (noSemicolon : ';' ∉ t) (noDouble : '"' ∉ t)
      (noSingle : '\'' ∉ t) : IsLegibleElement (.text t)

theorem isQuote_double : isQuote '"' = true := rfl

namespace IsLegibleElement

variable {v : Value} (h : v.IsLegibleElement)
include h

theorem trimmed_display : Text.Trimmed v.display := by
  cases h with
  | int n => exact trimmed_display_int n
  | text => exact trimmed_quoted isQuote_double _

theorem display_ne_nil : v.display ≠ [] := by
  cases h with
  | int n =>
    intro empty
    have number := readNumber?_display_int n
    rw [empty] at number
    cases number
  | text => exact List.cons_ne_nil _ _

theorem comma_not_mem_display : ',' ∉ v.display := by
  cases h with
  | int n => exact not_mem_display_int n (by decide) (by decide) (by decide)
  | text noComma => simp [display, noComma]

theorem semicolon_not_mem_display : ';' ∉ v.display := by
  cases h with
  | int n => exact not_mem_display_int n (by decide) (by decide) (by decide)
  | text _ noSemicolon => simp [display, noSemicolon]

theorem ofElement_display : ofElement v.display = v := by
  cases h with
  | int n => rw [ofElement, readNumber?_display_int, Option.getD_some]
  | text _ _ noDouble noSingle => exact ofElement_quoted isQuote_double noDouble noSingle

end IsLegibleElement

/-! ## Lists -/

/-- With commas and spaces between them, all parts but the first start with a space. -/
theorem join_commaSpace (first : Text) (rest : List Text) :
    Text.join ", ".toList (first :: rest) = Text.join [','] (first :: rest.map (' ' :: ·)) := by
  induction rest generalizing first with
  | nil => rfl
  | cons next rest ih =>
    calc Text.join ", ".toList (first :: next :: rest)
      _ = first ++ ", ".toList ++ Text.join ", ".toList (next :: rest) := by
        simp only [Text.join, List.intercalate_cons_cons]
      _ = first ++ [','] ++ ([' '] ++ Text.join [','] (next :: rest.map (' ' :: ·))) := by
        rw [ih]
        simp
      _ = Text.join [','] (first :: (next :: rest).map (' ' :: ·)) := by
        rw [Text.append_join_cons]
        simp only [Text.join, List.map_cons, List.intercalate_cons_cons, List.singleton_append]

section
variable {first : Value} {rest : List Value} (h : ∀ item ∈ first :: rest, item.IsLegibleElement)
include h

/-- A displayed list is cut at the commas between its elements and nowhere else. -/
theorem fields_display :
    Text.fields ',' (Text.join ", ".toList ((first :: rest).map display)) =
      first.display :: rest.map fun item => ' ' :: item.display := by
  obtain ⟨head, tail⟩ := List.forall_mem_cons.1 h
  have joined : Text.join ", ".toList ((first :: rest).map display) =
      Text.join [','] (first.display :: rest.map fun item => ' ' :: item.display) := by
    rw [List.map_cons, join_commaSpace, List.map_map]
    rfl
  rw [joined]
  apply Text.fields_join (List.cons_ne_nil _ _)
  · intro part hp
    rcases List.mem_cons.1 hp with rfl | hp
    · exact head.comma_not_mem_display
    · obtain ⟨item, hi, rfl⟩ := List.mem_map.1 hp
      simp [(tail item hi).comma_not_mem_display]
  · right
    intro empty
    rcases List.mem_cons.1 (List.mem_of_getLast? empty) with same | hp
    · exact head.display_ne_nil same.symm
    · obtain ⟨item, -, same⟩ := List.mem_map.1 hp
      cases same

theorem map_ofElement_fields_display :
    (Text.fields ',' (Text.join ", ".toList ((first :: rest).map display))).map
        (fun item => ofElement (Text.trim item)) = first :: rest := by
  obtain ⟨head, tail⟩ := List.forall_mem_cons.1 h
  have elements : rest.map (fun item => ofElement (Text.trim (' ' :: item.display))) = rest := by
    rw [List.map_congr_left (g := id), List.map_id]
    intro item hi
    have trimmed : Text.trim ([' '] ++ item.display ++ []) = item.display :=
      Text.trim_pad (List.forall_mem_singleton.2 rfl) (List.forall_mem_nil _)
        (tail item hi).trimmed_display
    rw [List.append_nil, List.singleton_append] at trimmed
    rw [trimmed, (tail item hi).ofElement_display, id]
  rw [fields_display h, List.map_cons, List.map_map, head.trimmed_display.trim_eq,
    head.ofElement_display]
  exact congrArg (List.cons first) elements

end

/-! ## Values -/

/-- A value that can be read back from what is displayed of it. -/
inductive IsLegible : Value → Prop where
  | int (n : Int32) : IsLegible (.int n)
  | text {t : Text} (noSemicolon : ';' ∉ t) : IsLegible (.text t)
  | list {items : List Value} (nonempty : items ≠ [])
      (elements : ∀ item ∈ items, item.IsLegibleElement) : IsLegible (.list items)

namespace IsLegible

variable {v : Value} (h : v.IsLegible)
include h

theorem trimmed_display : Text.Trimmed v.display := by
  cases h with
  | int n => exact trimmed_display_int n
  | text => exact trimmed_quoted isQuote_double _
  | list => exact trimmed_bracketed _

theorem semicolon_not_mem_display : ';' ∉ v.display := by
  cases h with
  | int n => exact not_mem_display_int n (by decide) (by decide) (by decide)
  | text noSemicolon => simp [display, noSemicolon]
  | @list items _ elements =>
    have joined : ';' ∉ Text.join ", ".toList (items.map display) := by
      apply Text.not_mem_join (by decide)
      intro part hp
      obtain ⟨item, hi, rfl⟩ := List.mem_map.1 hp
      exact (elements item hi).semicolon_not_mem_display
    rw [display, displayAll_eq_map]
    simp only [List.mem_append, not_or]
    exact ⟨⟨by decide, joined⟩, by decide⟩

end IsLegible

/-- **Inference undoes display.**  An integer, a text without semicolons, and a list of
integers and texts that have neither commas nor semicolons nor quotation marks are inferred
from what is displayed of them, under any variables. -/
theorem infer_display {v : Value} (h : v.IsLegible) (env : Environment) :
    infer v.display env = v := by
  rw [infer, normalize_of_trimmed h.trimmed_display h.semicolon_not_mem_display]
  cases h with
  | int n => simp only [inferNormalized, readNumber?_display_int]
  | text => exact inferNormalized_quoted isQuote_double _ env
  | @list items nonempty elements =>
    obtain ⟨first, rest, rfl⟩ := List.exists_cons_of_ne_nil nonempty
    have bracketed := inferNormalized_bracketed
      (Text.join ", ".toList ((first :: rest).map display)) env
    rw [map_ofElement_fields_display elements] at bracketed
    rw [display, displayAll_eq_map]
    exact bracketed

/-- A list whose texts look like a list and like numbers, and are none. -/
def misleading : Value :=
  .list [.int (-2147483648), .text " [1.5] ".toList, .text "-7".toList, .text []]

theorem isLegible_misleading : misleading.IsLegible := by
  apply IsLegible.list (List.cons_ne_nil _ _)
  simp only [List.forall_mem_cons]
  refine ⟨.int _, .text ?_ ?_ ?_ ?_, .text ?_ ?_ ?_ ?_, .text ?_ ?_ ?_ ?_, List.forall_mem_nil _⟩
  all_goals decide

/-- Not even a variable with this very name makes a difference. -/
theorem infer_display_misleading :
    misleading.IsLegible ∧
      infer misleading.display (.ofList [(misleading.display, .int 1)]) = misleading :=
  ⟨isLegible_misleading, infer_display isLegible_misleading _⟩

end Value
end Walkthrough
