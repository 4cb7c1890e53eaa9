import Mathlib.Logic.Relation
import Walkthrough.Proofs.Literals
import Walkthrough.Proofs.Numerals

/-!
# What inference depends on

Inference looks at the normalized text of a right-hand side alone.  Two right-hand sides have
the same one exactly if the first becomes the other by putting in and taking out semicolons
anywhere and blanks at the ends (`eqvGen_extends_iff`).  Of the variables it looks at the one
that the normalized text names, and only for a text without a value of its own
(`inferNormalized_eq`, `isSome_literalValue?_iff`).  `infer_dependence` puts this together.
-/

namespace Walkthrough.Value

open Relation (EqvGen)

/-! ## Semicolons and outer blanks -/

def withoutSemicolons (t : Text) : Text := Text.without (· = ';') t

theorem withoutSemicolons_append (s t : Text) :
    withoutSemicolons (s ++ t) = withoutSemicolons s ++ withoutSemicolons t :=
  List.filter_append ..

theorem withoutSemicolons_eq_self {t : Text} (h : ';' ∉ t) : withoutSemicolons t = t :=
  Text.without_of_not_mem h

theorem withoutSemicolons_of_blanks {t : Text} (h : ∀ c ∈ t, isBlank c = true) :
    withoutSemicolons t = t := by
  apply withoutSemicolons_eq_self
  intro mem
  cases h _ mem

/-- Trimming before the semicolons are left out makes no difference to trimming after it. -/
theorem normalize_eq (rhs : Text) : normalize rhs = Text.trim (withoutSemicolons rhs) := by
  obtain ⟨before, after, hb, ha, padded⟩ := Text.exists_pad rhs
  have parts : withoutSemicolons rhs =
      before ++ (withoutSemicolons (Text.trim rhs) ++ after) := by
    calc withoutSemicolons rhs
      _ = withoutSemicolons (before ++ Text.trim rhs ++ after) := by rw [padded]
      _ = before ++ (withoutSemicolons (Text.trim rhs) ++ after) := by
        rw [withoutSemicolons_append, withoutSemicolons_append, withoutSemicolons_of_blanks hb,
          withoutSemicolons_of_blanks ha, List.append_assoc]
  rw [parts, Text.trim_blanks_append hb, Text.trim_append_blanks _ ha]
  rfl

/-- One semicolon more, wherever it stands, or one blank more at an end. -/
inductive Extends : Text → Text → Prop where
  | semicolon (before after : Text) : Extends (before ++ after) (before ++ ';' :: after)
  | blankBefore {c : Char} (blank : isBlank c = true) (t : Text) : Extends t (c :: t)
  | blankAfter {c : Char} (blank : isBlank c = true) (t : Text) : Extends t (t ++ [c])

theorem Extends.normalize_eq {s t : Text} (h : Extends s t) : normalize s = normalize t := by
  rw [Value.normalize_eq, Value.normalize_eq]
  cases h with
  | semicolon before after =>
    rw [withoutSemicolons_append, withoutSemicolons_append]
    rfl
  | @blankBefore c blank =>
    have alone : ∀ d ∈ [c], isBlank d = true := List.forall_mem_singleton.2 blank
    rw [← List.singleton_append, withoutSemicolons_append, withoutSemicolons_of_blanks alone,
      Text.trim_blanks_append alone]
  | @blankAfter c blank =>
    have alone : ∀ d ∈ [c], isBlank d = true := List.forall_mem_singleton.2 blank
    rw [withoutSemicolons_append, withoutSemicolons_of_blanks alone,
      Text.trim_append_blanks _ alone]

theorem eqvGen_withoutSemicolons (before t : Text) :
    EqvGen Extends (before ++ withoutSemicolons t) (before ++ t) := by
  induction t generalizing before with
  | nil => exact .refl _
  | cons c t ih =>
    by_cases semicolon : c = ';'
    · subst semicolon
      exact .trans _ _ _ (ih before) (.rel _ _ (.semicolon before t))
    · have kept : withoutSemicolons (c :: t) = [c] ++ withoutSemicolons t := by
        simp [withoutSemicolons, Text.without, semicolon]
      have later := ih (before ++ [c])
      rw [List.append_assoc, List.append_assoc] at later
      rw [kept]
      exact later

theorem eqvGen_append_blanks (t : Text) {after : Text} (h : ∀ c ∈ after, isBlank c = true) :
    EqvGen Extends t (t ++ after) := by
  induction after generalizing t with
  | nil =>
    rw [List.append_nil]
    exact .refl t
  | cons c after ih =>
    obtain ⟨blank, blanks⟩ := List.forall_mem_cons.1 h
    rw [List.append_cons]
    exact .trans _ _ _ (.rel _ _ (.blankAfter blank t)) (ih (t ++ [c]) blanks)

theorem eqvGen_blanks_append {before : Text} (h : ∀ c ∈ before, isBlank c = true) (t : Text) :
    EqvGen Extends t (before ++ t) := by
  induction before with
  | nil => exact .refl t
  | cons c before ih =>
    obtain ⟨blank, blanks⟩ := List.forall_mem_cons.1 h
    exact .trans _ _ _ (ih blanks) (.rel _ _ (.blankBefore blank (before ++ t)))

theorem eqvGen_normalize (rhs : Text) : EqvGen Extends (normalize rhs) rhs := by
  obtain ⟨before, after, hb, ha, padded⟩ := Text.exists_pad (withoutSemicolons rhs)
  rw [← normalize_eq] at padded
  have outer : EqvGen Extends (normalize rhs) (withoutSemicolons rhs) := by
    rw [← padded, List.append_assoc]
    exact .trans _ _ _ (eqvGen_append_blanks _ ha) (eqvGen_blanks_append hb _)
  exact .trans _ _ _ outer (eqvGen_withoutSemicolons [] rhs)

/-- The edits that make no difference are exactly those that keep the normalized text. -/
theorem eqvGen_extends_iff {s t : Text} : EqvGen Extends s t ↔ normalize s = normalize t := by
  constructor
  · intro edited
    induction edited with
    | rel s t extension => exact extension.normalize_eq
    | refl t => rfl
    | symm s t _ ih => exact ih.symm
    | trans r s t _ _ first second => exact first.trans second
  · intro same
    have first := eqvGen_normalize s
    rw [same] at first
    exact .trans _ _ _ (.symm _ _ first) (eqvGen_normalize t)

/-! ## Texts with a value of their own -/

/-- The value of a text that has one whatever the variables are. -/
def literalValue? (t : Text) : Option Value :=
  match readNumber? t with
  | some number => some number
  | none =>
    if t.head?.any isQuote then some (text (withoutEnds t))
    else (if t.contains '[' || t.contains '\x7b' then readList? t else none).map list

/-- A variable counts only where no literal is recognised, and by its name only. -/
theorem inferNormalized_eq (t : Text) (env : Environment) :
    inferNormalized t env = (literalValue? t).getD ((env.get? t).getD placeholder) := by
  unfold inferNormalized literalValue?
  cases readNumber? t with
  | some number => rfl
  | none =>
    dsimp only
    split
    · rfl
    · cases (if t.contains '[' || t.contains '\x7b' then readList? t else none) <;> rfl

/-- There is a bracket that opens, and none closes after the first of these. -/
def IsUnclosed (t : Text) : Prop :=
  ∃ before after, t = before ++ '[' :: after ∧ '[' ∉ before ∧ ']' ∉ after

theorem readList?_eq_none_iff {t : Text} : readList? t = none ↔ IsUnclosed t := by
  constructor
  · intro unread
    unfold readList? at unread
    split at unread
    · cases unread
    · rename_i before opened opens
      split at unread
      · rename_i closes
        rw [Text.cut?_singleton_eq_none_iff, List.mem_reverse] at closes
        refine ⟨before, opened, ?_, Text.not_mem_of_cut?_singleton opens, closes⟩
        rw [Text.cut?_eq_append opens, List.append_assoc, List.singleton_append]
      · cases unread
  · rintro ⟨before, after, rfl, unopened, unclosed⟩
    have closes : Text.cut? [']'] after.reverse = none := by
      rwa [Text.cut?_singleton_eq_none_iff, List.mem_reverse]
    simp only [readList?, Text.cut?_singleton before after unopened, closes]

/-- The text is a number, starts with a quotation mark, or has an opening bracket or brace
and no bracket that stays unclosed. -/
inductive IsLiteral (t : Text) : Prop where
  | number (spelled : IsNumber t)
  | quoted {mark : Char} {rest : Text} (isMark : mark = '"' ∨ mark = '\'')
      (starts : t = mark :: rest)
  | bracketed (opens : '[' ∈ t ∨ '\x7b' ∈ t) (closed : ¬ IsUnclosed t)

theorem head?_any_isQuote_iff {t : Text} :
    t.head?.any isQuote = true ↔ ∃ mark rest, (mark = '"' ∨ mark = '\'') ∧ t = mark :: rest := by
  cases t with
  | nil => simp
  | cons c t => simp [isQuote]

theorem contains_bracket_iff {t : Text} :
    (t.contains '[' || t.contains '\x7b') = true ↔ '[' ∈ t ∨ '\x7b' ∈ t := by
  rw [Bool.or_eq_true, List.contains_iff_mem, List.contains_iff_mem]

theorem isSome_readList?_iff {t : Text} : (readList? t).isSome = true ↔ ¬ IsUnclosed t := by
  rw [← readList?_eq_none_iff, Option.isSome_iff_ne_none]

/-- The texts with a value of their own are the literals. -/
theorem isSome_literalValue?_iff {t : Text} : (literalValue? t).isSome = true ↔ IsLiteral t := by
  constructor
  · intro found
    unfold literalValue? at found
    split at found
    · rename_i number read
      exact .number (readNumber?_isSome_iff.1 (Option.isSome_of_eq_some read))
    · split at found
      · rename_i quote
        obtain ⟨mark, rest, is_mark, starts⟩ := head?_any_isQuote_iff.1 quote
        exact .quoted is_mark starts
      · rw [Option.isSome_map] at found
        split at found
        · rename_i opens
          exact .bracketed (contains_bracket_iff.1 opens) (isSome_readList?_iff.1 found)
        · cases found
  · intro literal
    unfold literalValue?
    split
    · rfl
    · rename_i unread
      split
      · rfl
      · rename_i unquoted
        cases literal with
        | number spelled =>
          rw [← readNumber?_isSome_iff, unread] at spelled
          cases spelled
        | quoted is_mark starts =>
          exact absurd (head?_any_isQuote_iff.2 ⟨_, _, is_mark, starts⟩) unquoted
        | bracketed opens closed =>
          rw [Option.isSome_map, if_pos (contains_bracket_iff.2 opens)]
          exact isSome_readList?_iff.2 closed

theorem inferNormalized_of_isLiteral {t : Text} (h : IsLiteral t) (env env' : Environment) :
    inferNormalized t env = inferNormalized t env' := by
  obtain ⟨value, found⟩ := Option.isSome_iff_exists.1 (isSome_literalValue?_iff.2 h)
  rw [inferNormalized_eq, inferNormalized_eq, found, Option.getD_some, Option.getD_some]

/-- Any other text shows whether there is a variable of its name. -/
theorem exists_ne_of_not_isLiteral {t : Text} (h : ¬ IsLiteral t) :
    ∃ env env', inferNormalized t env ≠ inferNormalized t env' := by
  have no_value : literalValue? t = none := by
    rwa [← isSome_literalValue?_iff, Option.not_isSome_iff_eq_none] at h
  have bound : Dictionary.get? (Dictionary.empty.insert t (int 0)) t = some (int 0) := by
    rw [Dictionary.get?_insert, if_pos rfl]
  refine ⟨.empty, Dictionary.empty.insert t (int 0), ?_⟩
  rw [inferNormalized_eq, inferNormalized_eq, no_value, bound]
  exact Value.noConfusion

/-- **What inference depends on.**  Semicolons put in or taken out anywhere and blanks at the
ends of a right-hand side change nothing.  Environments with the same variable, or none, under
the normalized text infer the same value, and exactly for a literal all environments do. -/
theorem infer_dependence (rhs : Text) :
    let normalized := Text.trim (Text.without (· = ';') rhs)
    (∀ rhs' env, EqvGen Extends rhs rhs' → infer rhs' env = infer rhs env) ∧
    (∀ env env' : Environment, env.get? normalized = env'.get? normalized →
      infer rhs env = infer rhs env') ∧
    ((∀ env env', infer rhs env = infer rhs env') ↔ IsLiteral normalized) := by
  intro normalized
  have looked_at : normalize rhs = normalized := normalize_eq rhs
  refine ⟨?_, ?_, ?_, ?_⟩
  · intro rhs' env edited
    rw [infer, infer, eqvGen_extends_iff.1 edited]
  · intro env env' agree
    rw [infer, infer, looked_at, inferNormalized_eq, inferNormalized_eq, agree]
  · intro constant
    by_contra other
    obtain ⟨env, env', differs⟩ := exists_ne_of_not_isLiteral other
    apply differs
    rw [← looked_at]
    exact constant env env'
  · intro literal env env'
    rw [infer, infer, looked_at]
    exact inferNormalized_of_isLiteral literal env env'

/-- The name of a variable is found between semicolons and blanks, next to whatever other
variables there are; it is no literal, as without the variable it has another value. -/
theorem infer_dependence_copied :
    let env : Environment := .ofList [("items".toList, .list [.int 1]), ("x".toList, .int 2)]
    let fewer : Environment := .ofList [("items".toList, .list [.int 1])]
    EqvGen Extends "items".toList " ;it;ems ; ".toList ∧
      env.get? "items".toList = fewer.get? "items".toList ∧
      infer " ;it;ems ; ".toList env = infer "items".toList fewer ∧
      ¬ IsLiteral "items".toList := by
  intro env fewer
  have edited : EqvGen Extends "items".toList " ;it;ems ; ".toList := eqvGen_extends_iff.2 rfl
  have agree : env.get? "items".toList = fewer.get? "items".toList := rfl
  obtain ⟨same_text, same_name, constant⟩ := infer_dependence "items".toList
  refine ⟨edited, agree, (same_text _ env edited).trans (same_name env fewer agree), ?_⟩
  intro literal
  have impossible : infer "items".toList .empty = infer "items".toList fewer :=
    constant.2 literal .empty fewer
  cases impossible

end Walkthrough.Value
