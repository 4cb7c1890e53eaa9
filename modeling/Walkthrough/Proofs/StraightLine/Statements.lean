import Walkthrough.Proofs.Outline
import Walkthrough.Proofs.StraightLine.Expressions
import Walkthrough.Proofs.Targets

/-!
# Reading a statement back

The line of a statement is significant, it is an assignment, and it is read as one to the
statement's target (`Statement.read_render`).  The modifiers before the target are taken
away whole and nothing else is: `withoutModifiers_render`.
-/

namespace Walkthrough

namespace StraightLine

theorem Modifier.word_chars (m : Modifier) :
    (∃ c rest, m.word = c :: rest ∧ isIdentifierStart c = true) ∧
      ∀ c ∈ m.word, isIdentifierChar c = true := by
  have all : ∀ word ∈ ["var".toList, "let".toList, "const".toList, "int".toList,
      "String".toList, "double".toList, "float".toList, "final".toList],
      word.head?.any isIdentifierStart = true ∧ word.all isIdentifierChar = true := by
    decide
  obtain ⟨start, chars⟩ := all m.word m.isModifier
  refine ⟨?_, List.all_eq_true.1 chars⟩
  cases word : m.word with
  | nil =>
    rw [word] at start
    cases start
  | cons c rest =>
    rw [word] at start
    exact ⟨c, rest, rfl, start⟩

/-! ## The two sides of the equals sign -/

/-- The modifiers and the target of a statement. -/
def Statement.declaration (s : Statement) : Text :=
  s.modifiers.flatMap Modifier.render ++ s.target.text

def Statement.ending (s : Statement) : Text := if s.hasSemicolon then [';'] else []

theorem Statement.render_eq (s : Statement) :
    s.render = (s.declaration ++ [' ']) ++ '=' :: (' ' :: (s.expression.render ++ s.ending)) := by
  have sign : " = ".toList = [' ', '=', ' '] := rfl
  simp only [render, declaration, ending, sign, List.append_assoc, List.cons_append,
    List.nil_append]

theorem declaration_head (modifiers : List Modifier) (x : Identifier) :
    ∃ c rest, modifiers.flatMap Modifier.render ++ x.text = c :: rest ∧
      isIdentifierStart c = true := by
  cases modifiers with
  | nil => exact x.first
  | cons m modifiers =>
    obtain ⟨⟨c, rest, word, start⟩, -⟩ := m.word_chars
    refine ⟨c, rest ++ (List.replicate (m.moreSpaces + 1) ' ' ++
      (modifiers.flatMap Modifier.render ++ x.text)), ?_, start⟩
    rw [List.flatMap_cons, Modifier.render, word, List.append_assoc, List.append_assoc,
      List.cons_append]

theorem declaration_head_not_blank (modifiers : List Modifier) (x : Identifier) :
    ∀ c, (modifiers.flatMap Modifier.render ++ x.text).head? = some c → isBlank c = false := by
  obtain ⟨d, rest, starts, start⟩ := declaration_head modifiers x
  intro c hc
  rw [starts] at hc
  exact Option.some.inj hc ▸ isBlank_of_isIdentifierStart start

/-- Of a declaration without its modifiers the target is left. -/
theorem withoutModifiers_render (modifiers : List Modifier) (x : Identifier) :
    Line.Assignment.withoutModifiers 0 (modifiers.flatMap Modifier.render ++ x.text) = x.text := by
  induction modifiers with
  | nil => exact Line.Assignment.withoutModifiers_of_forall fun c hc => x.isBlank hc
  | cons m modifiers ih =>
    have mem : m.word ∈ Line.Assignment.modifiers := m.isModifier
    have solid : ∀ c ∈ m.word, isBlank c = false :=
      fun c hc => isBlank_of_isIdentifierChar (m.word_chars.2 c hc)
    have some_space : List.replicate (m.moreSpaces + 1) ' ' ≠ [] := by simp
    rw [List.flatMap_cons, List.append_assoc, Modifier.render,
      Line.Assignment.withoutModifiers_word solid some_space (fun _ => isBlank_of_mem_spaces)
        (declaration_head_not_blank modifiers x), Line.Assignment.stem?_of_mem mem]
    exact ih

theorem Statement.declaration_trimmed (s : Statement) : Text.Trimmed s.declaration where
  head := declaration_head_not_blank s.modifiers s.target
  last c hc := by
    obtain ⟨first, rest, text, -⟩ := s.target.first
    have last_eq : s.declaration.getLast? = s.target.text.getLast? := by
      rw [declaration, List.getLast?_append, text]
      rfl
    rw [last_eq] at hc
    exact s.target.isBlank (List.mem_of_getLast? hc)

theorem Statement.targetOf_declaration (s : Statement) :
    Line.Assignment.targetOf (s.declaration ++ [' ']) = s.target.text := by
  have trimmed : Text.trim ([] ++ s.declaration ++ [' ']) = s.declaration :=
    Text.trim_pad (by simp) (List.forall_mem_singleton.2 rfl) s.declaration_trimmed
  have inside : ∀ c ∈ s.target.text, (!(decide (c = '[') || isBlank c)) = true := by
    intro c hc
    have bracket : c ≠ '[' := ne_of_mem_of_not_mem hc (s.target.not_mem (by decide))
    simp [bracket, s.target.isBlank hc]
  rw [List.nil_append] at trimmed
  rw [Line.Assignment.targetOf, trimmed, declaration, withoutModifiers_render]
  exact List.takeWhile_eq_self_iff.2 inside

theorem Statement.declaration_not_mem (s : Statement) {c : Char} (hc : c ∈ separators) :
    c ∉ s.declaration ++ [' '] := by
  obtain ⟨-, identifier, others⟩ := not_plain_of_mem_separators hc
  have space : c ≠ ' ' := by
    rintro rfl
    exact others (by decide)
  have modifiers : c ∉ s.modifiers.flatMap Modifier.render := by
    intro mem
    obtain ⟨m, -, hm⟩ := List.mem_flatMap.1 mem
    rcases List.mem_append.1 hm with word | spaces
    · rw [m.word_chars.2 c word] at identifier
      cases identifier
    · exact space (List.eq_of_mem_replicate spaces)
  simp [declaration, modifiers, s.target.not_mem identifier, space]

theorem Statement.equals_not_mem_right (s : Statement) :
    '=' ∉ ' ' :: (s.expression.render ++ s.ending) := by
  have ending : '=' ∉ s.ending := by
    unfold Statement.ending
    split <;> decide
  simp [s.expression.not_mem (c := '=') (by decide), ending]

/-! ## What is read off the line -/

theorem Statement.read_render (s : Statement) :
    Line.Assignment.read s.render =
      ⟨s.target.text, some (' ' :: (s.expression.render ++ s.ending))⟩ := by
  have fields : Text.fields '=' s.render =
      [s.declaration ++ [' '], ' ' :: (s.expression.render ++ s.ending)] := by
    have joined : s.render = Text.join ['=']
        [s.declaration ++ [' '], ' ' :: (s.expression.render ++ s.ending)] := by
      rw [s.render_eq, Text.join, List.intercalate_cons_cons, List.intercalate_singleton,
        List.append_assoc _ ['='], List.singleton_append]
    rw [joined]
    refine Text.fields_join (List.cons_ne_nil _ _) ?_ (.inr (by simp))
    simp only [List.forall_mem_cons, List.not_mem_nil, false_implies, implies_true, and_true]
    exact ⟨s.declaration_not_mem (by decide), s.equals_not_mem_right⟩
  rw [Line.Assignment.read, fields]
  simp only [s.targetOf_declaration]

theorem Statement.right_trimmed (s : Statement) :
    Text.Trimmed (s.expression.render ++ s.ending) := by
  unfold Statement.ending
  split
  · have semicolon : Text.Trimmed [';'] := .of_forall (List.forall_mem_singleton.2 rfl)
    simpa using s.expression.trimmed.enclose [] semicolon s.expression.render_ne_nil (by decide)
  · rw [List.append_nil]
    exact s.expression.trimmed

theorem Statement.normalize_right (s : Statement) :
    Value.normalize (' ' :: (s.expression.render ++ s.ending)) = s.expression.render := by
  have outer : Text.trim ([' '] ++ (s.expression.render ++ s.ending) ++ []) =
      s.expression.render ++ s.ending :=
    Text.trim_pad (List.forall_mem_singleton.2 rfl) (by simp) s.right_trimmed
  have without : Text.without (· = ';') (s.expression.render ++ s.ending) =
      s.expression.render := by
    have ending : s.ending.filter (fun c => !decide (c = ';')) = [] := by
      unfold Statement.ending
      split <;> rfl
    rw [Text.without, List.filter_append, ending, List.append_nil]
    exact Text.without_of_not_mem (s.expression.not_mem (by decide))
  rw [List.append_nil, List.singleton_append] at outer
  rw [Value.normalize, outer, without, s.expression.trimmed.trim_eq]

/-- The line binds the target to the meaning of the expression. -/
theorem Statement.valueOf_render (s : Statement) (env : Environment) :
    Sweep.valueOf env (Line.Assignment.read s.render).rhs = s.expression.eval env.get? := by
  rw [s.read_render, Sweep.valueOf, Value.infer, s.normalize_right, s.expression.infer_render]

theorem Statement.isAssignment_render (s : Statement) : Line.isAssignment s.render = true := by
  have one : s.render.count '=' = 1 := by
    rw [s.render_eq, List.count_append, List.count_cons_self,
      List.count_eq_zero_of_not_mem (s.declaration_not_mem (by decide)),
      List.count_eq_zero_of_not_mem s.equals_not_mem_right]
  have some_sign : s.render.contains '=' = true := by
    rw [List.contains_eq_mem, decide_eq_true_eq]
    exact List.count_pos_iff.1 (by omega)
  have not_two : Line.has "==" s.render = false := by
    rw [Bool.eq_false_iff]
    intro two
    have infix_of := Text.occursIn_iff.1 two
    have count := infix_of.sublist.count_le '='
    rw [one] at count
    exact absurd count (by decide)
  rw [Line.isAssignment, some_sign, not_two]
  rfl

theorem Statement.trimmed (s : Statement) : Text.Trimmed s.render := by
  obtain ⟨c, rest, starts, -⟩ := declaration_head s.modifiers s.target
  have declares : s.declaration ≠ [] := by
    rw [declaration, starts]
    exact List.cons_ne_nil c rest
  have right : s.expression.render ++ s.ending ≠ [] :=
    List.append_ne_nil_of_left_ne_nil s.expression.render_ne_nil _
  have enclosed := s.declaration_trimmed.enclose [' ', '=', ' '] s.right_trimmed declares right
  rw [s.render_eq]
  simpa using enclosed

theorem Statement.isSignificant_render (s : Statement) : Line.isSignificant s.render = true := by
  obtain ⟨c, rest, starts, start⟩ := declaration_head s.modifiers s.target
  have head : s.render.head? = some c := by
    rw [s.render_eq, declaration, starts]
    rfl
  rw [Line.isSignificant_iff, s.trimmed.trim_eq]
  refine ⟨?_, ?_, ?_⟩
  · intro empty
    rw [empty] at head
    cases head
  · rintro ⟨tail, comment⟩
    rw [← comment] at head
    cases head
    revert start
    decide
  · rintro ⟨tail, comment⟩
    rw [← comment] at head
    cases head
    revert start
    decide

end StraightLine
end Walkthrough
