import Walkthrough.Proofs.Literals
import Walkthrough.Proofs.Numerals

/-!
# Reading an expression back

The value that is inferred from the text of an expression is the one that the expression
means: `Expression.infer_render`.  No expression holds a character that a line is cut at
(`Expression.not_mem`).
-/

namespace Walkthrough.StraightLine

/-! ## Characters -/

theorem isIdentifierStart_range {c : Char} (h : isIdentifierStart c = true) :
    65 ≤ c.toNat ∧ c.toNat ≤ 122 := by
  have kinds : ((c.isUpper || c.isLower) || decide (c = '_')) = true := h
  simp only [Bool.or_eq_true, decide_eq_true_eq] at kinds
  rcases kinds with (upper | lower) | rfl
  · have bounds : 65 ≤ c.toNat ∧ c.toNat ≤ 90 := of_decide_eq_true upper
    omega
  · obtain ⟨first, last⟩ := Bool.and_eq_true_iff.1 lower
    have low : 97 ≤ c.toNat := of_decide_eq_true first
    have high : c.toNat ≤ 122 := of_decide_eq_true last
    omega
  · decide

theorem isBlank_of_isIdentifierStart {c : Char} (h : isIdentifierStart c = true) :
    isBlank c = false := by
  have range := isIdentifierStart_range h
  exact isBlank_eq_false (by omega) (by omega)

theorem isBlank_of_isIdentifierChar {c : Char} (h : isIdentifierChar c = true) :
    isBlank c = false := by
  have kinds : isIdentifierStart c = true ∨ c.isDigit = true := by
    simp only [isIdentifierChar, Char.isAlphanum, Bool.or_eq_true] at h
    simp only [isIdentifierStart, Bool.or_eq_true]
    grind
  rcases kinds with start | digit
  · exact isBlank_of_isIdentifierStart start
  · exact isBlank_of_isDigit digit

theorem startsNoNumber_of_isIdentifierStart {c : Char} (h : isIdentifierStart c = true) :
    StartsNoNumber c where
  digit := by
    have range := isIdentifierStart_range h
    rw [Bool.eq_false_iff]
    intro digit
    have other := isDigit_range digit
    omega
  minus := by rintro rfl; revert h; decide
  plus := by rintro rfl; revert h; decide
  point := by rintro rfl; revert h; decide

theorem Identifier.not_mem (x : Identifier) {c : Char} (h : isIdentifierChar c = false) :
    c ∉ x.text := by
  intro mem
  rw [x.chars c mem] at h
  cases h

theorem Identifier.isBlank (x : Identifier) {c : Char} (h : c ∈ x.text) : isBlank c = false :=
  isBlank_of_isIdentifierChar (x.chars c h)

/-! ## Literals -/

theorem Numeral.mem_render {n : Numeral} {c : Char} (h : c ∈ n.render) :
    c.isDigit = true ∨ c = '+' ∨ c = '-' := by
  have digits : ∀ d ∈ n.digits, d.isDigit = true := by
    have all := n.isDigits
    rw [Text.isDigits, Bool.and_eq_true, List.all_eq_true] at all
    exact all.2
  rcases List.mem_append.1 h with sign | digit
  · cases kind : n.sign <;> simp_all [Sign.render]
  · exact .inl (digits c digit)

theorem Numeral.spelled (n : Numeral) :
    n.render.SpellsWhole (n.sign.apply (Text.digitsValue n.digits)) :=
  ⟨n.sign, n.digits, n.isDigits, rfl, rfl⟩

theorem Numeral.trimmed (n : Numeral) : Text.Trimmed n.render := n.spelled.trimmed

theorem Numeral.not_mem (n : Numeral) {c : Char} (digit : c.isDigit = false) (plus : c ≠ '+')
    (minus : c ≠ '-') : c ∉ n.render := by
  intro mem
  rcases n.mem_render mem with is_digit | is_plus | is_minus
  · rw [digit] at is_digit
    cases is_digit
  · exact plus is_plus
  · exact minus is_minus

theorem Numeral.readInt32? (n : Numeral) :
    Text.readInt32? n.render = some (.ofInt (n.sign.apply (Text.digitsValue n.digits))) := by
  rw [Text.readInt32?_eq_some_iff,
    Int32.toInt_ofInt_of_le n.lower (Int.lt_add_one_of_le n.upper)]
  exact n.spelled

theorem Numeral.readNumber? (n : Numeral) : Value.readNumber? n.render = some n.value := by
  have no_point : n.render.contains '.' = false := by
    rw [List.contains_eq_mem, decide_eq_false_iff_not]
    exact n.not_mem (by decide) (by decide) (by decide)
  rw [Value.readNumber?, no_point, n.readInt32?]
  rfl

theorem Quotation.isQuote_mark (q : Quotation) : Value.isQuote q.mark = true := by
  rcases q.isMark with h | h <;> rw [h] <;> decide

theorem Quotation.trimmed (q : Quotation) : Text.Trimmed q.render :=
  Value.trimmed_quoted q.isQuote_mark q.content

/-! ## Lists -/

theorem Item.trimmed (i : Item) : Text.Trimmed i.render := by
  cases i with
  | numeral n => exact n.trimmed
  | quotation q => exact q.trimmed

theorem Item.ofElement (i : Item) : Value.ofElement i.render = i.value := by
  cases i with
  | numeral n => rw [render, Value.ofElement, n.readNumber?, value, Option.getD_some]
  | quotation q _ noDouble noSingle =>
    exact Value.ofElement_quoted q.isQuote_mark noDouble noSingle

theorem Item.comma_not_mem (i : Item) : ',' ∉ i.render := by
  cases i with
  | numeral n => exact n.not_mem (by decide) (by decide) (by decide)
  | quotation q noComma =>
    have mark : ',' ≠ q.mark := by
      rcases q.isMark with h | h <;> rw [h] <;> decide
    simp [render, Quotation.render, mark, noComma]

theorem Element.trim_render (e : Element) : Text.trim e.render = e.item.render := by
  apply Text.trim_pad
  · exact fun _ => isBlank_of_mem_spaces
  · exact fun _ => isBlank_of_mem_spaces
  · exact e.item.trimmed

theorem Element.comma_not_mem (e : Element) : ',' ∉ e.render := by
  simp [render, List.mem_replicate, e.item.comma_not_mem]

theorem Item.render_ne_nil (i : Item) : i.render ≠ [] := by
  cases i with
  | numeral n =>
    intro empty
    have digits : n.digits = [] := (List.append_eq_nil_iff.1 empty).2
    have some_digit := n.isDigits
    rw [digits] at some_digit
    cases some_digit
  | quotation q => exact List.cons_ne_nil _ _

theorem Element.render_ne_nil (e : Element) : e.render ≠ [] := by
  simp [render, e.item.render_ne_nil]

/-- A list literal is cut at the commas between its items and nowhere else. -/
theorem fields_elements (first : Element) (rest : List Element) :
    Text.fields ',' (Text.join [','] ((first :: rest).map Element.render)) =
      (first :: rest).map Element.render := by
  apply Text.fields_join
  · exact List.cons_ne_nil _ _
  · intro part hp
    obtain ⟨e, -, rfl⟩ := List.mem_map.1 hp
    exact e.comma_not_mem
  · right
    intro empty
    obtain ⟨e, -, he⟩ := List.mem_map.1 (List.mem_of_getLast? empty)
    exact e.render_ne_nil he

/-! ## Expressions -/

theorem Expression.trimmed (e : Expression) : Text.Trimmed e.render := by
  cases e with
  | numeral n => exact n.trimmed
  | quotation q => exact q.trimmed
  | list first rest => exact Value.trimmed_bracketed _
  | copy x => exact .of_forall fun _ hc => x.isBlank hc

theorem Expression.render_ne_nil (e : Expression) : e.render ≠ [] := by
  cases e with
  | numeral n => exact Item.render_ne_nil (.numeral n)
  | quotation q => exact List.cons_ne_nil _ _
  | list first rest => exact List.cons_ne_nil _ _
  | copy x =>
    obtain ⟨c, rest, text, -⟩ := x.first
    rw [render, text]
    exact List.cons_ne_nil c rest

/-- The characters that programs and their lines are cut at. -/
def separators : List Char := ['\n', ';', '=']

theorem eq_of_mem_separators {c : Char} (h : c ∈ separators) : c = '\n' ∨ c = ';' ∨ c = '=' := by
  simpa [separators] using h

/-- Only quotation marks can hide a separator. -/
theorem not_plain_of_mem_separators {c : Char} (h : c ∈ separators) :
    c.isDigit = false ∧ isIdentifierChar c = false ∧
      c ∉ ['+', '-', '"', '\'', '[', ',', ']', ' '] := by
  rcases eq_of_mem_separators h with rfl | rfl | rfl <;> decide

theorem Expression.not_mem (e : Expression) {c : Char} (hc : c ∈ separators) : c ∉ e.render := by
  obtain ⟨digit, identifier, others⟩ := not_plain_of_mem_separators hc
  simp only [List.mem_cons, List.not_mem_nil, or_false, not_or] at others
  obtain ⟨plus, minus, double, single, opening, comma, closing, space⟩ := others
  have numeral (n : Numeral) : c ∉ n.render := n.not_mem digit plus minus
  have quotation (q : Quotation) : c ∉ q.render := by
    have content : c ∉ q.content := by
      rcases eq_of_mem_separators hc with rfl | rfl | rfl
      · exact q.oneLine
      · exact q.noSemicolon
      · exact q.noEquals
    have mark : c ≠ q.mark := by
      rcases q.isMark with h | h <;> rw [h] <;> assumption
    simp [Quotation.render, content, mark]
  cases e with
  | numeral n => exact numeral n
  | quotation q => exact quotation q
  | copy x => exact x.not_mem identifier
  | list first rest =>
    have elements : c ∉ Text.join [','] ((first :: rest).map Element.render) := by
      apply Text.not_mem_join
      · simpa using comma
      · intro part hp
        obtain ⟨e, -, rfl⟩ := List.mem_map.1 hp
        have item : c ∉ e.item.render := by
          cases e.item with
          | numeral n => exact numeral n
          | quotation q => exact quotation q
        simp [Element.render, List.mem_replicate, item, space]
    rw [render, List.mem_append, List.mem_cons, List.mem_singleton]
    rintro ((is_opening | inside) | is_closing)
    · exact opening is_opening
    · exact elements inside
    · exact closing is_closing

/-- The value that is inferred from an expression is the one that it means. -/
theorem Expression.infer_render (e : Expression) (env : Environment) :
    Value.inferNormalized e.render env = e.eval env.get? := by
  cases e with
  | numeral n => simp only [render, Value.inferNormalized, n.readNumber?, eval]
  | quotation q => exact Value.inferNormalized_quoted q.isQuote_mark q.content env
  | list first rest =>
    rw [render, Value.inferNormalized_bracketed, fields_elements, List.map_map, eval,
      Value.list.injEq]
    refine List.map_congr_left fun e _ => ?_
    rw [Function.comp_apply, e.trim_render, e.item.ofElement]
  | copy x =>
    obtain ⟨c, rest, text_eq, start⟩ := x.first
    have no_number : Value.readNumber? x.text = none := by
      have trimmed := trimmed (.copy x)
      rw [render, text_eq] at trimmed
      rw [text_eq]
      exact Value.readNumber?_eq_none (startsNoNumber_of_isIdentifierStart start) trimmed
    have unquoted : x.text.head?.any Value.isQuote = false := by
      rw [text_eq, List.head?_cons, Option.any_some, Value.isQuote, Bool.or_eq_false_iff,
        decide_eq_false_iff_not, decide_eq_false_iff_not]
      constructor <;> rintro rfl <;> revert start <;> decide
    have no_bracket : (x.text.contains '[' || x.text.contains '\x7b') = false := by
      rw [Bool.or_eq_false_iff, List.contains_eq_mem, List.contains_eq_mem,
        decide_eq_false_iff_not, decide_eq_false_iff_not]
      exact ⟨x.not_mem (by decide), x.not_mem (by decide)⟩
    simp only [render, Value.inferNormalized, no_number, unquoted, no_bracket, eval,
      Bool.false_eq_true, if_false]

end Walkthrough.StraightLine
