import Mathlib.Data.List.Chain
import Walkthrough.Json.Token
import Walkthrough.Proofs.Json.Number
import Walkthrough.Proofs.Text.Fields

/-!
# The tokens of a text

A text of tokens gives back the tokens that it was written from, with any blanks between
them, or none (`lex_of_spaced`).  Without blanks a number has to be told from what follows
it; of two neighbours among the tokens of a value one is always a bracket, a comma, a colon
or a word (`isChain_tokens`).  `not_control_of_mem_write` says that a compact text has no
control characters, and so no line feed.
-/

namespace Walkthrough.Json

/-- A value whose number literals are whole and in range, with at most `depth` containers
nested in it. -/
inductive Readable : Nat → Json → Prop where
  | null (depth : Nat) : Readable depth .null
  | bool (depth : Nat) (b : Bool) : Readable depth (.bool b)
  | number (depth : Nat) {literal : Text} {l : NumberLiteral}
      (whole : NumberLiteral.take? literal = some (l, [])) (inRange : l.isInRange = true) :
      Readable depth (.number literal)
  | string (depth : Nat) (t : Text) : Readable depth (.string t)
  | array {depth : Nat} {items : List Json} (h : ∀ item ∈ items, Readable depth item) :
      Readable (depth + 1) (.array items)
  | object {depth : Nat} {members : List (Text × Json)}
      (h : ∀ member ∈ members, Readable depth member.2) : Readable (depth + 1) (.object members)

/-! ## Strings -/

/-- A character that stands for itself in a string. -/
def isPlain (c : Char) : Bool := c ≠ '"' && c ≠ '\\' && 0x20 ≤ c.toNat

theorem isPlain_iff {c : Char} :
    isPlain c = true ↔ c ≠ '"' ∧ c ≠ '\\' ∧ 0x20 ≤ c.toNat := by
  simp only [isPlain, Bool.and_eq_true, decide_eq_true_eq, and_assoc]

theorem isPlain_hexDigit {n : Nat} (h : n < 16) : isPlain (Text.hexDigit n) = true := by
  have all : ∀ m : Fin 16, isPlain (Text.hexDigit m) = true := by decide
  exact all ⟨n, h⟩

theorem isPlain_of_mem_hex {width n : Nat} {c : Char} (h : c ∈ Text.hex width n) :
    isPlain c = true := by
  induction width generalizing n with
  | zero => cases h
  | succ width ih =>
    rcases List.mem_append.1 h with high | low
    · exact ih high
    · rw [List.mem_singleton.1 low]
      exact isPlain_hexDigit (Nat.mod_lt n (by decide))

theorem takeBody?_cons {c : Char} (quote : c ≠ '"') (backslash : c ≠ '\\') (rest : Text) :
    takeBody? (c :: rest) = (takeBody? rest).map fun (body, after) => (c :: body, after) := by
  rw [takeBody?.eq_def]
  split
  · simp_all
  · simp_all
  · simp_all
  · simp_all

theorem takeBody?_append {plain : Text} (h : ∀ c ∈ plain, isPlain c = true) (rest : Text) :
    takeBody? (plain ++ rest) =
      (takeBody? rest).map fun (body, after) => (plain ++ body, after) := by
  induction plain with
  | nil => simp
  | cons c plain ih =>
    obtain ⟨first, others⟩ := List.forall_mem_cons.1 h
    obtain ⟨quote, backslash, -⟩ := isPlain_iff.1 first
    rw [List.cons_append, takeBody?_cons quote backslash, ih others, Option.map_map]
    rfl

theorem takeBody?_escapeChar (c : Char) (rest : Text) :
    takeBody? (escapeChar c ++ rest) =
      (takeBody? rest).map fun (body, after) => (escapeChar c ++ body, after) := by
  unfold escapeChar
  split
  · rfl
  · rename_i notFound
    split
    · have digits : ∀ d ∈ Text.hex 4 c.toNat, isPlain d = true := fun d => isPlain_of_mem_hex
      rw [List.cons_append, List.cons_append, takeBody?, takeBody?_append digits, Option.map_map]
      rfl
    · have quote : c ≠ '"' := by rintro rfl; simp [letterEscapes] at notFound
      have backslash : c ≠ '\\' := by rintro rfl; simp [letterEscapes] at notFound
      exact takeBody?_cons quote backslash rest

theorem takeBody?_escape (t rest : Text) :
    takeBody? (escape t ++ '"' :: rest) = some (escape t, rest) := by
  induction t with
  | nil => simp [escape, takeBody?]
  | cons c t ih =>
    have split : escape (c :: t) = escapeChar c ++ escape t := rfl
    rw [split, List.append_assoc, takeBody?_escapeChar, ih]
    rfl

theorem isBody_escape (t : Text) : isBody (escape t) = true := by
  have read := unescape?_escape t
  unfold unescape? at read
  split at read
  · cases read
  · rename_i found
    rw [isBody, found]
    rfl

theorem escape_eq_self {t : Text} (h : t.all isPlain = true) : escape t = t := by
  have plain : ∀ c ∈ t, escapeChar c = [c] := by
    intro c hc
    obtain ⟨quote, backslash, printing⟩ := isPlain_iff.1 (List.all_eq_true.1 h c hc)
    have no_letter : letterEscapes.lookup c = none := by
      rw [List.lookup_eq_none_iff]
      intro entry member
      have escaped : ∀ entry ∈ letterEscapes,
          entry.1 = '"' ∨ entry.1 = '\\' ∨ entry.1.toNat < 0x20 := by decide
      rw [bne_iff_ne]
      rintro rfl
      rcases escaped entry member with same | same | control
      · exact quote same
      · exact backslash same
      · omega
    rw [escapeChar, no_letter]
    exact if_neg (by omega)
  rw [escape, List.flatMap_def, List.map_congr_left plain, ← List.flatMap_def,
    List.flatMap_singleton']

theorem not_control_of_mem_escape {t : Text} {c : Char} (h : c ∈ escape t) : 0x20 ≤ c.toNat := by
  obtain ⟨source, -, hc⟩ := List.mem_flatMap.1 h
  unfold escapeChar at hc
  split at hc
  · rename_i letter found
    have letters : ∀ entry ∈ letterEscapes, 0x20 ≤ entry.2.toNat := by decide
    rcases List.mem_cons.1 hc with rfl | hc
    · decide
    · rw [List.mem_singleton.1 hc]
      obtain ⟨before, after, split, -⟩ := List.lookup_eq_some_iff.1 found
      have entry : (source, letter) ∈ letterEscapes := by
        rw [split]
        exact List.mem_append_right before List.mem_cons_self
      exact letters _ entry
  · split at hc
    · rcases List.mem_cons.1 hc with rfl | hc
      · decide
      · rcases List.mem_cons.1 hc with rfl | hc
        · decide
        · exact (isPlain_iff.1 (isPlain_of_mem_hex hc)).2.2
    · rw [List.mem_singleton.1 hc]
      omega

/-! ## One token -/

namespace Token

/-- The tokens that values have: whole numbers, and bodies that escape a text. -/
inductive Standard : Token → Prop where
  | fixed {token : Token} (h : token ∈ fixed) : Standard token
  | number {literal : Text} {l : NumberLiteral}
      (whole : NumberLiteral.take? literal = some (l, [])) : Standard (.number literal)
  | string (t : Text) : Standard (.string (escape t))

theorem fixed_head {token : Token} (h : token ∈ fixed) :
    ∃ c rest, token.text = c :: rest ∧ isLiteralChar c = false := by
  have all : ∀ token ∈ fixed, token.text.head?.any (fun c => !isLiteralChar c) = true := by decide
  obtain ⟨c, head, ends⟩ := (Option.any_eq_true _ _).1 (all token h)
  obtain ⟨rest, text_eq⟩ := List.head?_eq_some_iff.1 head
  rw [Bool.not_eq_true'] at ends
  exact ⟨c, rest, text_eq, ends⟩

theorem endsNumber_fixed {token : Token} (h : token ∈ fixed) (after : Text) :
    EndsNumber (token.text ++ after) := by
  obtain ⟨c, rest, text_eq, ends⟩ := fixed_head h
  rw [text_eq]
  exact .cons ends _

theorem take?_fixed {token : Token} (h : token ∈ fixed) (after : Text) :
    take? (token.text ++ after) = some (token, after) := by
  simp only [fixed, List.mem_cons, List.not_mem_nil, or_false] at h
  rcases h with rfl | rfl | rfl | rfl | rfl | rfl | rfl | rfl | rfl
  all_goals rfl

theorem take?_string (t after : Text) :
    take? ((Token.string (escape t)).text ++ after) = some (.string (escape t), after) := by
  simp [text, take?, takeBody?_escape, isBody_escape]

/-- No other token starts with a character of numbers. -/
theorem take?_of_isLiteralChar {c : Char} (h : isLiteralChar c = true) (rest : Text) :
    take? (c :: rest) =
      (NumberLiteral.take? (c :: rest)).map fun (l, after) => (.number l.text, after) := by
  have quote : c ≠ '"' := by
    rintro rfl
    cases h
  have other : (fixed.find? fun token => token.text.isPrefixOf (c :: rest)) = none := by
    refine List.find?_eq_none.2 ?_
    intro token member starts
    obtain ⟨d, more, text_eq, not_literal⟩ := fixed_head member
    rw [text_eq, List.isPrefixOf_iff_prefix, List.cons_prefix_cons] at starts
    rw [starts.1, h] at not_literal
    cases not_literal
  rw [take?.eq_def]
  split
  · cases ‹_ = []›
  · exact absurd (List.cons.inj ‹_›).1 quote
  · rw [other]

theorem take?_number {literal : Text} {l : NumberLiteral}
    (whole : NumberLiteral.take? literal = some (l, [])) {after : Text} (ends : EndsNumber after) :
    take? ((Token.number literal).text ++ after) = some (.number literal, after) := by
  obtain ⟨c, rest, literal_eq, literal_char⟩ := NumberLiteral.exists_cons_of_take? whole
  have l_text : l.text = literal := by
    rw [(NumberLiteral.splits_take? whole).1, List.append_nil]
  have read := NumberLiteral.take?_append ends literal
  rw [whole, Option.map_some, literal_eq, List.cons_append] at read
  rw [text, literal_eq, List.cons_append, take?_of_isLiteralChar literal_char, read, ← literal_eq,
    ← l_text]
  rfl

theorem Standard.head {token : Token} (h : Standard token) :
    ∃ c rest, token.text = c :: rest ∧ isSpace c = false := by
  cases h with
  | fixed h =>
    have all : ∀ token ∈ Token.fixed, token.text.all (fun c => !isSpace c) = true := by decide
    obtain ⟨c, rest, text_eq, -⟩ := fixed_head h
    have first := all token h
    rw [text_eq, List.all_cons, Bool.and_eq_true, Bool.not_eq_true'] at first
    exact ⟨c, rest, text_eq, first.1⟩
  | number whole =>
    obtain ⟨c, rest, literal_eq, literal_char⟩ := NumberLiteral.exists_cons_of_take? whole
    refine ⟨c, rest, literal_eq, ?_⟩
    have range := isLiteralChar_range literal_char
    simp only [isSpace, Bool.or_eq_false_iff, decide_eq_false_iff_not]
    refine ⟨⟨⟨?_, ?_⟩, ?_⟩, ?_⟩ <;> rintro rfl <;> exact absurd range.1 (by decide)
  | string t => exact ⟨'"', escape t ++ ['"'], rfl, rfl⟩

/-- No control characters. -/
theorem Standard.not_control {token : Token} (h : Standard token) :
    ∀ c ∈ token.text, 0x20 ≤ c.toNat := by
  intro c hc
  cases h with
  | fixed h =>
    have all : ∀ token ∈ Token.fixed, token.text.all isPlain = true := by decide
    exact (isPlain_iff.1 (List.all_eq_true.1 (all token h) c hc)).2.2
  | number whole =>
    have split := NumberLiteral.splits_take? whole
    rw [text, split.1, List.append_nil] at hc
    have range := isLiteralChar_range (split.2 c hc)
    omega
  | string t =>
    simp only [text, List.mem_append, List.mem_singleton] at hc
    rcases hc with (rfl | inside) | rfl
    · decide
    · exact not_control_of_mem_escape inside
    · decide

/-! ## All tokens -/

/-- The tokens of a text, under any bound that is no less than its length. -/
def Lexed (t : Text) (tokens : List Token) : Prop :=
  ∀ n, t.length ≤ n → lexUpTo n t = some tokens

theorem Lexed.nil : Lexed [] [] := by
  intro n _
  cases n <;> rfl

theorem Lexed.cons {token : Token} {after : Text} {tokens : List Token}
    (head : ∃ c rest, token.text = c :: rest ∧ isSpace c = false)
    (taken : take? (token.text ++ after) = some (token, after)) (h : Lexed after tokens) :
    Lexed (token.text ++ after) (token :: tokens) := by
  intro n hn
  obtain ⟨c, rest, text_eq, not_space⟩ := head
  rw [text_eq, List.cons_append] at taken hn ⊢
  cases n with
  | zero => cases hn
  | succ n =>
    have bound : after.length ≤ n := by
      rw [List.length_cons, List.length_append] at hn
      omega
    have unspaced : (c :: (rest ++ after)).dropWhile isSpace = c :: (rest ++ after) :=
      List.dropWhile_cons_of_neg (by simp [not_space])
    rw [lexUpTo, unspaced]
    simp only [taken, h n bound, Option.map_some]

theorem Lexed.spaces {spaces t : Text} {tokens : List Token} (h : ∀ c ∈ spaces, isSpace c = true)
    (later : Lexed t tokens) : Lexed (spaces ++ t) tokens := by
  induction spaces with
  | nil => exact later
  | cons c spaces ih =>
    obtain ⟨first, others⟩ := List.forall_mem_cons.1 h
    intro n hn
    cases n with
    | zero => cases hn
    | succ n =>
      have skipped := ih others (n + 1) (Nat.le_succ_of_le (Nat.le_of_succ_le_succ hn))
      rw [lexUpTo] at skipped ⊢
      rwa [List.cons_append, List.dropWhile_cons_of_pos first]

/-- A text of some tokens with any blanks in front of them. -/
inductive Spaced : List Token → Text → Prop where
  | nil : Spaced [] []
  | cons {spaces after : Text} {tokens : List Token} (blank : ∀ c ∈ spaces, isSpace c = true)
      (token : Token) (h : Spaced tokens after) :
      Spaced (token :: tokens) (spaces ++ (token.text ++ after))

theorem spaced_flatMap (tokens : List Token) : Spaced tokens (tokens.flatMap text) := by
  induction tokens with
  | nil => exact .nil
  | cons token tokens ih => exact .cons (List.forall_mem_nil _) token ih

/-- One of two tokens has a fixed text, so that none of them runs into the other. -/
def Apart (first second : Token) : Prop := first ∈ fixed ∨ second ∈ fixed

theorem isChain_around {first last : List Token} {token : Token} (h : token ∈ fixed)
    (hf : first.IsChain Apart) (hl : last.IsChain Apart) :
    (first ++ token :: last).IsChain Apart := by
  refine List.isChain_append.2 ⟨hf, List.isChain_cons.2 ⟨fun _ _ => .inl h, hl⟩, ?_⟩
  intro x _ y hy
  rw [← Option.some.inj hy]
  exact .inr h

theorem isChain_intercalate {parts : List (List Token)}
    (h : ∀ part ∈ parts, part.IsChain Apart) :
    ([Token.comma].intercalate parts).IsChain Apart := by
  induction parts with
  | nil => exact .nil
  | cons part rest ih =>
    obtain ⟨first, others⟩ := List.forall_mem_cons.1 h
    cases rest with
    | nil => rwa [List.intercalate_singleton]
    | cons next rest =>
      rw [List.intercalate_cons_cons, List.append_assoc]
      exact isChain_around (by decide) first (ih others)

theorem isLiteralChar_of_isSpace {c : Char} (h : isSpace c = true) : isLiteralChar c = false := by
  simp only [isSpace, Bool.or_eq_true, decide_eq_true_eq] at h
  rcases h with ((rfl | rfl) | rfl) | rfl <;> decide

/-- No number goes on with blanks, or with a token of a fixed text. -/
theorem Spaced.endsNumber {tokens : List Token} {t : Text} (h : Spaced tokens t)
    (first : ∀ token ∈ tokens.head?, token ∈ fixed) : EndsNumber t := by
  cases h with
  | nil => exact .nil
  | @cons spaces after tokens blank token h =>
    cases spaces with
    | nil => exact endsNumber_fixed (first token rfl) after
    | cons c spaces => exact .cons (isLiteralChar_of_isSpace (blank c List.mem_cons_self)) _

theorem Spaced.lexed {tokens : List Token} {t : Text} (h : Spaced tokens t)
    (standard : ∀ token ∈ tokens, token.Standard) (apart : tokens.IsChain Apart) :
    Lexed t tokens := by
  induction h with
  | nil => exact .nil
  | @cons spaces after tokens blank token h ih =>
    obtain ⟨here, others⟩ := List.forall_mem_cons.1 standard
    obtain ⟨next, apart⟩ := List.isChain_cons.1 apart
    have head := here.head
    apply Lexed.spaces blank
    refine Lexed.cons head ?_ (ih others apart)
    cases here with
    | fixed member => exact take?_fixed member after
    | string t => exact take?_string t after
    | @number literal l whole =>
      have not_fixed : Token.number literal ∉ fixed := by simp [fixed]
      exact take?_number whole (h.endsNumber fun other ho => (next other ho).resolve_left not_fixed)

end Token

/-! ## A whole value -/

/-- Induction on the items of arrays and on the values of objects. -/
theorem induction {P : Json → Prop} (null : P .null) (bool : ∀ b, P (.bool b))
    (number : ∀ literal, P (.number literal)) (string : ∀ t, P (.string t))
    (array : ∀ items, (∀ item ∈ items, P item) → P (.array items))
    (object : ∀ members, (∀ member ∈ members, P member.2) → P (.object members)) :
    ∀ j, P j :=
  @Json.rec P (fun items => ∀ item ∈ items, P item) (fun members => ∀ member ∈ members, P member.2)
    (fun member => P member.2) null bool number string array object (List.forall_mem_nil _)
    (fun _ _ first others => List.forall_mem_cons.2 ⟨first, others⟩) (List.forall_mem_nil _)
    (fun _ _ first others => List.forall_mem_cons.2 ⟨first, others⟩) (fun _ _ h => h)

theorem isChain_tokens (j : Json) : j.tokens.IsChain Token.Apart := by
  induction j using Json.induction with
  | null => exact .singleton _
  | bool => exact .singleton _
  | number => exact .singleton _
  | string => exact .singleton _
  | array items ih =>
    rw [tokens, itemTokens_eq_map]
    refine Token.isChain_around (by decide) (Token.isChain_around (by decide) .nil ?_) .nil
    exact Token.isChain_intercalate (List.forall_mem_map.2 ih)
  | object members ih =>
    rw [tokens, memberTokens_eq_map]
    refine Token.isChain_around (by decide) (Token.isChain_around (by decide) .nil ?_) .nil
    refine Token.isChain_intercalate (List.forall_mem_map.2 fun (name, value) member => ?_)
    exact @Token.isChain_around [.string (escape name)] value.tokens .colon (by decide)
      (.singleton _) (ih (name, value) member)

theorem standard_array {items : List Json}
    (h : ∀ item ∈ items, ∀ token ∈ item.tokens, token.Standard) :
    ∀ token ∈ (array items).tokens, token.Standard := by
  rw [tokens, itemTokens_eq_map, List.cons_append, List.forall_mem_cons, List.forall_mem_append,
    List.forall_mem_singleton]
  refine ⟨.fixed (by decide), Text.forall_mem_intercalate ?_ ?_, .fixed (by decide)⟩
  · exact List.forall_mem_singleton.2 (.fixed (by decide))
  · exact List.forall_mem_map.2 h

theorem standard_object {members : List (Text × Json)}
    (h : ∀ member ∈ members, ∀ token ∈ member.2.tokens, token.Standard) :
    ∀ token ∈ (object members).tokens, token.Standard := by
  rw [tokens, memberTokens_eq_map, List.cons_append, List.forall_mem_cons,
    List.forall_mem_append, List.forall_mem_singleton]
  refine ⟨.fixed (by decide), Text.forall_mem_intercalate ?_ ?_, .fixed (by decide)⟩
  · exact List.forall_mem_singleton.2 (.fixed (by decide))
  · refine List.forall_mem_map.2 fun (name, value) member => ?_
    rw [List.forall_mem_cons, List.forall_mem_cons]
    exact ⟨.string name, .fixed (by decide), h (name, value) member⟩

theorem standard_of_mem_tokens {depth : Nat} {j : Json} (h : Readable depth j) :
    ∀ token ∈ j.tokens, token.Standard := by
  induction h with
  | null => exact List.forall_mem_singleton.2 (.fixed (by decide))
  | bool _ b => exact List.forall_mem_singleton.2 (.fixed (by cases b <;> decide))
  | number _ whole => exact List.forall_mem_singleton.2 (.number whole)
  | string _ t => exact List.forall_mem_singleton.2 (.string t)
  | array _ ih => exact standard_array ih
  | object _ ih => exact standard_object ih

/-- Blanks between the tokens of a value make no difference to them. -/
theorem lex_of_spaced {j : Json} {t : Text} (standard : ∀ token ∈ j.tokens, token.Standard)
    (h : Token.Spaced j.tokens t) : Token.lex t = some j.tokens :=
  h.lexed standard (isChain_tokens j) _ (Nat.le_refl _)

theorem not_control_of_mem_write {depth : Nat} {j : Json} {c : Char} (h : Readable depth j)
    (hc : c ∈ j.write) : 0x20 ≤ c.toNat := by
  obtain ⟨token, member, inside⟩ := List.mem_flatMap.1 hc
  exact (standard_of_mem_tokens h token member).not_control c inside

end Walkthrough.Json
