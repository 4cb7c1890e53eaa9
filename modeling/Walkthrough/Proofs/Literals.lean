import Walkthrough.Proofs.Numbers
import Walkthrough.Proofs.Text.Fields

/-!
# Quoted and bracketed literals

What inference makes of a text between quotation marks, whatever stands there
(`inferNormalized_quoted`), and of one between brackets, which it cuts at the commas
(`inferNormalized_bracketed`).
-/

namespace Walkthrough.Value

/-! ## Between quotation marks -/

section
variable {mark : Char} (isMark : isQuote mark = true)
include isMark

theorem eq_of_isQuote : mark = '"' ∨ mark = '\'' := by
  simpa [isQuote] using isMark

theorem isBlank_of_isQuote : isBlank mark = false := by
  rcases eq_of_isQuote isMark with rfl | rfl <;> decide

theorem trimmed_quoted (t : Text) : Text.Trimmed (mark :: t ++ [mark]) :=
  .of_ends rfl List.getLast?_concat (isBlank_of_isQuote isMark) (isBlank_of_isQuote isMark)

theorem readNumber?_quoted (t : Text) : readNumber? (mark :: t ++ [mark]) = none := by
  have no_number : StartsNoNumber mark := by
    rcases eq_of_isQuote isMark with rfl | rfl <;> constructor <;> decide
  exact readNumber?_eq_none no_number (trimmed_quoted isMark t)

theorem inferNormalized_quoted (t : Text) (env : Environment) :
    inferNormalized (mark :: t ++ [mark]) env = text t := by
  have quoted : (mark :: t ++ [mark]).head?.any isQuote = true := isMark
  have content : withoutEnds (mark :: t ++ [mark]) = t := by
    rw [withoutEnds, List.cons_append, List.tail_cons, List.dropLast_concat]
  simp only [inferNormalized, readNumber?_quoted isMark, quoted, content, if_true]

theorem without_isQuote_quoted {t : Text} (double : '"' ∉ t) (single : '\'' ∉ t) :
    Text.without isQuote (mark :: t ++ [mark]) = t := by
  have content : Text.without isQuote t = t := by
    apply List.filter_eq_self.2
    intro c hc
    have not_double : c ≠ '"' := ne_of_mem_of_not_mem hc double
    have not_single : c ≠ '\'' := ne_of_mem_of_not_mem hc single
    simp [isQuote, not_double, not_single]
  unfold Text.without at content ⊢
  rw [List.filter_append, List.filter_cons_of_neg (by simp [isMark]), content,
    List.filter_cons_of_neg (by simp [isMark]), List.filter_nil, List.append_nil]

/-- In a list all quotation marks are left out, so the content may have none itself. -/
theorem ofElement_quoted {t : Text} (double : '"' ∉ t) (single : '\'' ∉ t) :
    ofElement (mark :: t ++ [mark]) = text t := by
  rw [ofElement, readNumber?_quoted isMark, without_isQuote_quoted isMark double single,
    Option.getD_none]

end

/-! ## Between brackets -/

section
variable (content : Text)

theorem trimmed_bracketed : Text.Trimmed ('[' :: content ++ [']']) :=
  .of_ends rfl List.getLast?_concat (by decide) (by decide)

theorem readNumber?_bracketed : readNumber? ('[' :: content ++ [']']) = none :=
  readNumber?_eq_none (by constructor <;> decide) (trimmed_bracketed content)

theorem readList?_bracketed :
    readList? ('[' :: content ++ [']']) =
      some ((Text.fields ',' content).map fun item => ofElement (Text.trim item)) := by
  have opening (t : Text) : Text.cut? ['['] ('[' :: t) = some ([], t) :=
    Text.cut?_singleton [] t List.not_mem_nil
  have closing (t : Text) : Text.cut? [']'] (']' :: t) = some ([], t) :=
    Text.cut?_singleton [] t List.not_mem_nil
  rw [List.cons_append, readList?, opening]
  simp only [List.reverse_append, List.reverse_singleton, List.singleton_append, closing,
    List.reverse_reverse, elementsIn]

theorem inferNormalized_bracketed (env : Environment) :
    inferNormalized ('[' :: content ++ [']']) env =
      list ((Text.fields ',' content).map fun item => ofElement (Text.trim item)) := by
  have unquoted : ('[' :: content ++ [']']).head?.any isQuote = false := rfl
  have bracket : ('[' :: content ++ [']']).contains '[' = true := rfl
  simp only [inferNormalized, readNumber?_bracketed, unquoted, bracket, readList?_bracketed,
    Bool.true_or, Bool.false_eq_true, if_true, if_false]

end

/-- A text without semicolons and outer blanks is looked at as it is. -/
theorem normalize_of_trimmed {t : Text} (trimmed : Text.Trimmed t) (no_semicolon : ';' ∉ t) :
    normalize t = t := by
  rw [normalize, trimmed.trim_eq, Text.without_of_not_mem no_semicolon, trimmed.trim_eq]

end Walkthrough.Value
