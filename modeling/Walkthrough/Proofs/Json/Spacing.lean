import Walkthrough.Proofs.Json.Reading

/-!
# Blanks between tokens

The indented text of a value is its compact one with blanks between the tokens
(`spaced_writeIndented`).  So it is read as the same document
(`Document.read?_writeIndented`), and without the blanks outside its strings it is the
compact text: `withoutSpaces_writeIndented`.
-/

namespace Walkthrough.Json

/-- Where a character of a text stands: outside all strings, inside one, or inside one and
just after a backslash that escapes it. -/
inductive Place where
  | outside
  | inside
  | escaped
  deriving DecidableEq

/-- Where the character after another one stands. -/
def Place.next : Place → Char → Place
  | .outside, c => if c = '"' then .inside else .outside
  | .inside, c => if c = '"' then .outside else if c = '\\' then .escaped else .inside
  | .escaped, _ => .inside

/-- A text less the blanks in it that stand outside its strings. -/
def withoutSpaces (place : Place) : Text → Text
  | [] => []
  | c :: rest =>
    if place = .outside ∧ Token.isSpace c = true then withoutSpaces place rest
    else c :: withoutSpaces (place.next c) rest

/-! ## What is kept -/

/-- A text of which all is kept, from one place to another. -/
def Keeps (first : Place) (t : Text) (last : Place) : Prop :=
  ∀ rest, withoutSpaces first (t ++ rest) = t ++ withoutSpaces last rest

section
variable {first last : Place}

theorem Keeps.nil (place : Place) : Keeps place [] place := fun _ => rfl

theorem Keeps.append {middle : Place} {s t : Text} (hs : Keeps first s middle)
    (ht : Keeps middle t last) : Keeps first (s ++ t) last := by
  intro rest
  rw [List.append_assoc, hs, ht, List.append_assoc]

theorem Keeps.cons {c : Char} {t : Text} (kept : first = .outside → Token.isSpace c = false)
    (h : Keeps (first.next c) t last) : Keeps first (c :: t) last := by
  intro rest
  have not_dropped : ¬ (first = .outside ∧ Token.isSpace c = true) := by
    rintro ⟨outside, space⟩
    rw [kept outside] at space
    cases space
  rw [List.cons_append, withoutSpaces, if_neg not_dropped, h, List.cons_append]

theorem keeps_of_forall {place : Place} {t : Text}
    (h : ∀ c ∈ t, (place = .outside → Token.isSpace c = false) ∧ place.next c = place) :
    Keeps place t place := by
  induction t with
  | nil => exact .nil place
  | cons c t ih =>
    obtain ⟨⟨kept, stays⟩, others⟩ := List.forall_mem_cons.1 h
    refine .cons kept ?_
    rw [stays]
    exact ih others

end

theorem keeps_inside {t : Text} (h : ∀ c ∈ t, isPlain c = true) : Keeps .inside t .inside := by
  refine keeps_of_forall fun c hc => ⟨nofun, ?_⟩
  obtain ⟨quote, backslash, -⟩ := isPlain_iff.1 (h c hc)
  rw [Place.next, if_neg quote, if_neg backslash]

theorem keeps_escapeChar (c : Char) : Keeps .inside (escapeChar c) .inside := by
  unfold escapeChar
  split
  · exact .cons nofun (.cons nofun (.nil _))
  · rename_i notFound
    split
    · exact .cons nofun (.cons nofun (keeps_inside fun d => isPlain_of_mem_hex))
    · refine keeps_inside (List.forall_mem_singleton.2 (isPlain_iff.2 ⟨?_, ?_, by omega⟩))
      · rintro rfl
        simp [letterEscapes] at notFound
      · rintro rfl
        simp [letterEscapes] at notFound

theorem keeps_escape (t : Text) : Keeps .inside (escape t) .inside := by
  induction t with
  | nil => exact .nil _
  | cons c t ih => exact (keeps_escapeChar c).append ih

namespace Token

theorem Standard.keeps {token : Token} (h : Standard token) :
    Keeps .outside token.text .outside := by
  cases h with
  | fixed h =>
    have all : ∀ token ∈ Token.fixed,
        token.text.all (fun c => isPlain c && !isSpace c) = true := by decide
    refine keeps_of_forall fun c hc => ?_
    have kept := List.all_eq_true.1 (all token h) c hc
    rw [Bool.and_eq_true, Bool.not_eq_true'] at kept
    exact ⟨fun _ => kept.2, if_neg (isPlain_iff.1 kept.1).1⟩
  | number whole =>
    obtain ⟨split, literal⟩ := NumberLiteral.splits_take? whole
    rw [List.append_nil] at split
    refine keeps_of_forall fun c hc => ?_
    have literal_char := literal c (split ▸ hc)
    constructor
    · intro _
      cases space : isSpace c with
      | false => rfl
      | true =>
        rw [isLiteralChar_of_isSpace space] at literal_char
        cases literal_char
    · apply if_neg
      rintro rfl
      cases literal_char
  | string t =>
    have opening : Keeps .outside ['"'] .inside := .cons (fun _ => rfl) (.nil _)
    have closing : Keeps .inside ['"'] .outside := .cons nofun (.nil _)
    exact (opening.append (keeps_escape t)).append closing

theorem withoutSpaces_spaces {spaces : Text} (h : ∀ c ∈ spaces, isSpace c = true) (t : Text) :
    withoutSpaces .outside (spaces ++ t) = withoutSpaces .outside t := by
  induction spaces with
  | nil => rfl
  | cons c spaces ih =>
    obtain ⟨first, others⟩ := List.forall_mem_cons.1 h
    rw [List.cons_append, withoutSpaces, if_pos ⟨rfl, first⟩, ih others]

/-- Without its blanks a text of tokens is the texts of the tokens. -/
theorem Spaced.withoutSpaces_eq {tokens : List Token} {t : Text} (h : Spaced tokens t)
    (standard : ∀ token ∈ tokens, token.Standard) :
    withoutSpaces .outside t = tokens.flatMap text := by
  induction h with
  | nil => rfl
  | cons blank token h ih =>
    obtain ⟨first, others⟩ := List.forall_mem_cons.1 standard
    rw [withoutSpaces_spaces blank, first.keeps, ih others, List.flatMap_cons]

end Token

/-! ## The indented text -/

theorem isSpace_of_mem_newLine {depth : Nat} :
    ∀ c ∈ newLine depth, Token.isSpace c = true := by
  refine List.forall_mem_cons.2 ⟨rfl, fun c hc => ?_⟩
  rw [List.eq_of_mem_replicate hc]
  rfl

theorem isSpace_of_mem_gap {depth : Nat} {previous next : Token} :
    ∀ c ∈ gap depth previous next, Token.isSpace c = true := by
  unfold gap
  split
  · split
    · exact List.forall_mem_nil _
    · exact isSpace_of_mem_newLine
  · split
    · exact isSpace_of_mem_newLine
    · split
      · exact List.forall_mem_singleton.2 rfl
      · exact List.forall_mem_nil _

theorem spaced_layOut (depth : Nat) (previous : Token) (tokens : List Token) :
    Token.Spaced tokens (layOut depth previous tokens) := by
  induction tokens generalizing depth previous with
  | nil => exact .nil
  | cons token tokens ih =>
    rw [layOut, List.append_assoc]
    exact .cons isSpace_of_mem_gap token (ih _ token)

theorem spaced_writeIndented (j : Json) : Token.Spaced j.tokens j.writeIndented :=
  spaced_layOut 0 .null j.tokens

section
variable {j : Json} (standard : ∀ token ∈ j.tokens, token.Standard)
include standard

theorem withoutSpaces_writeIndented : withoutSpaces .outside j.writeIndented = j.write :=
  (spaced_writeIndented j).withoutSpaces_eq standard

example : withoutSpaces .outside (Json.array [.ofNat 1, .string " ".toList]).writeIndented =
    "[1,\" \"]".toList := by decide

theorem Document.read?_writeIndented : read? j.writeIndented = some j.document :=
  read?_of_spaced standard (spaced_writeIndented j)

end

/-- A value comes back from its indented text. -/
theorem read?_writeIndented {j : Json} (h : Readable depthLimit j) :
    read? j.writeIndented = some j := by
  have document := Document.read?_writeIndented (standard_of_mem_tokens h)
  rw [read?, document]
  exact decode?_document h

end Walkthrough.Json
