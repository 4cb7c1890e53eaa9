import Walkthrough.Proofs.Inference
import Walkthrough.Proofs.Text.Fields
import Walkthrough.Trace.DataStructure

/-!
# The shape of a list literal

A list counts as nested by the first character of its first element, which inference has cut
at a comma and stripped of all quotation marks.  So what counts is the start of the literal
(`DataStructure.detect?_bracketed`): a bracketed first item makes a graph of it, however deeply
it is nested, a number makes an array, and a quoted item makes an array unless its content
starts with a bracket (`DataStructure.detect?_literal`).
-/

namespace Walkthrough

/-! ## The first element -/

namespace Value

theorem isListShaped_of_readNumber? {t : Text} {number : Value} (h : readNumber? t = some number) :
    number.isListShaped = false := by
  unfold readNumber? at h
  split at h
  · obtain ⟨x, -, rfl⟩ := Option.map_eq_some_iff.1 h
    rfl
  · obtain ⟨n, -, rfl⟩ := Option.map_eq_some_iff.1 h
    rfl

/-- Quotation marks in front of a bracket do not hide it. -/
theorem isListShaped_ofElement {t : Text} (trimmed : Text.Trimmed t) :
    (ofElement t).isListShaped = true ↔ (Text.without isQuote t).head? = some '[' := by
  cases read : readNumber? t with
  | none => simp [ofElement, read, isListShaped]
  | some number =>
    have flat : (ofElement t).isListShaped = false := by
      rw [ofElement, read]
      exact isListShaped_of_readNumber? read
    rw [flat, Bool.false_eq_true, false_iff]
    intro opens
    cases t with
    | nil => cases opens
    | cons c t =>
      have no_number : StartsNoNumber c := by
        by_cases quote : isQuote c = true
        · rcases eq_of_isQuote quote with rfl | rfl <;> constructor <;> decide
        · rw [Text.without, List.filter_cons_of_pos (by simp [quote])] at opens
          cases opens
          constructor <;> decide
      rw [readNumber?_eq_none no_number trimmed] at read
      cases read

/-- The text up to the first comma starts with a bracket once blanks around it and all
quotation marks are left out. -/
def OpensNested (content : Text) : Prop :=
  (Text.without isQuote (Text.trim (Text.upTo (· = ',') content))).head? = some '['

instance (content : Text) : Decidable (OpensNested content) := inferInstanceAs (Decidable (_ = _))

/-- Of an item between brackets the bracket is left, wherever the first comma is. -/
theorem opensNested_of_bracket {before : Text} (hb : ∀ c ∈ before, isBlank c = true) (t : Text) :
    OpensNested (before ++ '[' :: t) := by
  have solid : ∀ c ∈ before, (!decide (c = ',')) = true := by
    intro c hc
    rw [Bool.not_eq_true', decide_eq_false_iff_not]
    rintro rfl
    cases hb _ hc
  have cut : Text.upTo (· = ',') (before ++ '[' :: t) =
      before ++ '[' :: Text.upTo (· = ',') t :=
    List.takeWhile_append_of_pos solid
  obtain ⟨later, kept⟩ := Text.exists_trim_cons (c := '[') (by decide) (Text.upTo (· = ',') t)
  rw [OpensNested, cut, Text.trim_blanks_append hb, kept]
  rfl

theorem normalize_bracketed {before after : Text} (hb : ∀ c ∈ before, isBlank c = true)
    (ha : ∀ c ∈ after, isBlank c = true) (content : Text) :
    normalize (before ++ ('[' :: content ++ [']']) ++ after) =
      '[' :: withoutSemicolons content ++ [']'] := by
  have inside : withoutSemicolons ('[' :: content ++ [']']) =
      '[' :: withoutSemicolons content ++ [']'] := by
    rw [withoutSemicolons_append]
    rfl
  rw [normalize_eq, withoutSemicolons_append, withoutSemicolons_append,
    withoutSemicolons_of_blanks hb, withoutSemicolons_of_blanks ha, inside]
  exact Text.trim_pad hb ha (trimmed_bracketed _)

end Value

open Value (OpensNested withoutSemicolons)

namespace DataStructure

theorem shapeOf_fields (content : Text) :
    shapeOf ((Text.fields ',' content).map fun item => Value.ofElement (Text.trim item)) =
      if OpensNested content then .graph else .array := by
  have first := Text.head?_fields ',' content
  have nested : ((Text.fields ',' content).map fun item =>
      Value.ofElement (Text.trim item)).head?.any Value.isListShaped = true ↔
        OpensNested content := by
    rw [List.head?_map, Option.any_map, OpensNested, ← first]
    cases (Text.fields ',' content).head? with
    | none => decide
    | some item =>
      rw [Option.any_some, Option.getD_some]
      exact Value.isListShaped_ofElement (Text.trimmed_trim item)
  simp only [shapeOf, nested]

/-- Whatever stands between the brackets, the first item alone makes the shape. -/
theorem detect?_bracketed {before after : Text} (hb : ∀ c ∈ before, isBlank c = true)
    (ha : ∀ c ∈ after, isBlank c = true) (content : Text) (env : Environment) :
    let value := Value.infer (before ++ ('[' :: content ++ [']']) ++ after) env
    detect? value =
      some ⟨if OpensNested (withoutSemicolons content) then .graph else .array, value,
        operationNames⟩ := by
  intro value
  have listed : value = .list ((Text.fields ',' (withoutSemicolons content)).map fun item =>
      Value.ofElement (Text.trim item)) := by
    simp only [value, Value.infer, Value.normalize_bracketed hb ha,
      Value.inferNormalized_bracketed]
  rw [listed, ← shapeOf_fields]
  rfl

end DataStructure

/-! ## List literals -/

/-- What may stand first in a list: an integer of any size, a quotation, or any text between
brackets. -/
inductive ListItem where
  | integer (t : Text) (n : Int) (spelled : t.SpellsWhole n)
  | quoted (mark : Char) (content : Text) (isMark : mark = '"' ∨ mark = '\'')
      (free : ∀ c ∈ content, c ≠ ',' ∧ c ≠ ';' ∧ c ≠ '"' ∧ c ≠ '\'')
  | bracketed (content : Text)

namespace ListItem

def text : ListItem → Text
  | integer t _ _ => t
  | quoted mark content _ _ => mark :: content ++ [mark]
  | bracketed content => '[' :: content ++ [']']

/-- The item counts as a list: it is one, or a quotation that starts like one. -/
def Opens : ListItem → Prop
  | integer _ _ _ => False
  | quoted _ content _ _ => content.head? = some '['
  | bracketed _ => True

instance : (item : ListItem) → Decidable item.Opens
  | integer _ _ _ => inferInstanceAs (Decidable False)
  | quoted _ content _ _ => inferInstanceAs (Decidable (content.head? = some '['))
  | bracketed _ => inferInstanceAs (Decidable True)

section
variable {before after rest : Text} (hb : ∀ c ∈ before, isBlank c = true)
  (ha : ∀ c ∈ after, isBlank c = true) (separated : rest = [] ∨ ∃ later, rest = ',' :: later)
include hb ha separated

/-- An item without commas and semicolons is what the first element is read off. -/
theorem opensNested_of_free {t : Text} (trimmed : Text.Trimmed t)
    (free : ∀ c ∈ t, c ≠ ',' ∧ c ≠ ';') :
    OpensNested (withoutSemicolons (before ++ t ++ after ++ rest)) ↔
      (Text.without Value.isQuote t).head? = some '[' := by
  have no_semicolon : ';' ∉ t := fun mem => (free _ mem).2 rfl
  have kept : withoutSemicolons (before ++ t ++ after ++ rest) =
      before ++ t ++ after ++ withoutSemicolons rest := by
    simp only [Value.withoutSemicolons_append, Value.withoutSemicolons_of_blanks hb,
      Value.withoutSemicolons_of_blanks ha, Value.withoutSemicolons_eq_self no_semicolon]
  have boundary : ∀ c, (withoutSemicolons rest).head? = some c → decide (c = ',') = true := by
    intro c hc
    rcases separated with rfl | ⟨later, rfl⟩
    · cases hc
    · cases hc
      rfl
  have inside : ∀ c ∈ before ++ t ++ after, decide (c = ',') = false := by
    have solid {c : Char} (blank : isBlank c = true) : decide (c = ',') = false := by
      rw [decide_eq_false_iff_not]
      rintro rfl
      cases blank
    intro c hc
    rcases List.mem_append.1 hc with hc | blank
    · rcases List.mem_append.1 hc with blank | mem
      · exact solid (hb c blank)
      · exact decide_eq_false (free c mem).1
    · exact solid (ha c blank)
  rw [kept, OpensNested, Text.upTo_append inside boundary, Text.trim_pad hb ha trimmed]

theorem opensNested_iff (item : ListItem) :
    OpensNested (withoutSemicolons (before ++ item.text ++ after ++ rest)) ↔ item.Opens := by
  cases item with
  | integer t n spelled =>
    have free : ∀ c ∈ t, c ≠ ',' ∧ c ≠ ';' := by
      intro c hc
      exact ⟨ne_of_mem_of_not_mem hc (spelled.not_mem (by decide)),
        ne_of_mem_of_not_mem hc (spelled.not_mem (by decide))⟩
    rw [text, opensNested_of_free hb ha separated spelled.trimmed free, Opens, iff_false]
    intro opens
    have mem : '[' ∈ t := (List.mem_filter.1 (List.mem_of_head? opens)).1
    exact spelled.not_mem (by decide) mem
  | quoted mark content isMark free =>
    have quote : Value.isQuote mark = true := by simpa [Value.isQuote] using isMark
    have mark_free : mark ≠ ',' ∧ mark ≠ ';' := by
      rcases isMark with rfl | rfl <;> decide
    have item_free : ∀ c ∈ mark :: content ++ [mark], c ≠ ',' ∧ c ≠ ';' := by
      refine List.forall_mem_append.2 ⟨List.forall_mem_cons.2 ⟨mark_free, ?_⟩,
        List.forall_mem_singleton.2 mark_free⟩
      intro c hc
      exact ⟨(free c hc).1, (free c hc).2.1⟩
    have unquoted : Text.without Value.isQuote (mark :: content ++ [mark]) = content :=
      Value.without_isQuote_quoted quote (fun mem => (free _ mem).2.2.1 rfl)
        fun mem => (free _ mem).2.2.2 rfl
    rw [text, opensNested_of_free hb ha separated (Value.trimmed_quoted quote content) item_free,
      unquoted, Opens]
  | bracketed content =>
    have opening : withoutSemicolons (before ++ ('[' :: content ++ [']']) ++ after ++ rest) =
        before ++ '[' :: withoutSemicolons (content ++ [']'] ++ after ++ rest) := by
      rw [List.append_assoc, List.append_assoc, Value.withoutSemicolons_append,
        Value.withoutSemicolons_of_blanks hb]
      simp only [List.cons_append, List.append_assoc]
      rfl
    rw [text, opening, Opens, iff_true]
    exact Value.opensNested_of_bracket hb _

end

end ListItem

/-- A list literal: an item and whatever else, with commas between them and blanks around the
literal and around its first item. -/
structure ListLiteral where
  before : Text
  after : Text
  itemBefore : Text
  itemAfter : Text
  first : ListItem
  others : List Text
  before_blank : ∀ c ∈ before, isBlank c = true
  after_blank : ∀ c ∈ after, isBlank c = true
  itemBefore_blank : ∀ c ∈ itemBefore, isBlank c = true
  itemAfter_blank : ∀ c ∈ itemAfter, isBlank c = true

namespace ListLiteral

def content (l : ListLiteral) : Text :=
  Text.join [','] ((l.itemBefore ++ l.first.text ++ l.itemAfter) :: l.others)

def text (l : ListLiteral) : Text := l.before ++ ('[' :: l.content ++ [']']) ++ l.after

theorem exists_content_eq (l : ListLiteral) :
    ∃ rest, l.content = l.itemBefore ++ l.first.text ++ l.itemAfter ++ rest ∧
      (rest = [] ∨ ∃ later, rest = ',' :: later) := by
  unfold content Text.join
  cases l.others with
  | nil => exact ⟨[], by rw [List.intercalate_singleton, List.append_nil], .inl rfl⟩
  | cons next others =>
    refine ⟨[','] ++ [','].intercalate (next :: others), ?_, .inr ⟨_, rfl⟩⟩
    rw [List.intercalate_cons_cons, List.append_assoc]

end ListLiteral

/-- A list literal is detected, and its first item decides on the shape, whatever the others
and the variables are. -/
theorem DataStructure.detect?_literal (l : ListLiteral) (env : Environment) :
    detect? (Value.infer l.text env) =
      some ⟨if l.first.Opens then .graph else .array, Value.infer l.text env, operationNames⟩ := by
  obtain ⟨rest, content_eq, separated⟩ := l.exists_content_eq
  have opens : OpensNested (withoutSemicolons l.content) ↔ l.first.Opens := by
    rw [content_eq]
    exact l.first.opensNested_iff l.itemBefore_blank l.itemAfter_blank separated
  rw [ListLiteral.text, detect?_bracketed l.before_blank l.after_blank]
  simp only [opens]

/-- A literal with the same number of spaces around it and around its first item. -/
def ListLiteral.spaced (n : Nat) (first : ListItem) (others : List Text) : ListLiteral where
  before := List.replicate n ' '
  after := List.replicate n ' '
  itemBefore := List.replicate n ' '
  itemAfter := List.replicate n ' '
  first := first
  others := others
  before_blank _ := isBlank_of_mem_spaces
  after_blank _ := isBlank_of_mem_spaces
  itemBefore_blank _ := isBlank_of_mem_spaces
  itemAfter_blank _ := isBlank_of_mem_spaces

/-- The literal `[[[1], 2], 'a']`. -/
def ListLiteral.nested : ListLiteral := .spaced 0 (.bracketed "[1], 2".toList) [" 'a'".toList]

/-- The literal `[ 'a ]' , [2]]` between spaces. -/
def ListLiteral.flat : ListLiteral :=
  .spaced 1 (.quoted '\'' ['a', ' ', ']'] (.inr rfl) (by simp)) [" [2]".toList]

theorem DataStructure.detect?_nested_flat :
    (detect? (Value.infer "[[[1], 2], 'a']".toList .empty)).map shape = some .graph ∧
      (detect? (Value.infer " [ 'a ]' , [2]] ".toList .empty)).map shape = some .array :=
  ⟨congrArg (Option.map shape) (detect?_literal .nested .empty),
    congrArg (Option.map shape) (detect?_literal .flat .empty)⟩

/-- A quotation is no list, but its mark is forgotten before the bracket in it is looked at. -/
theorem DataStructure.detect?_quoted_bracket :
    (detect? (Value.infer "['[a', 1]".toList .empty)).map shape = some .graph := by
  rfl

end Walkthrough
