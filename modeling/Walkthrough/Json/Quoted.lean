import Walkthrough.Text.Hex

/-!
# Quoted texts

What stands between the quotation marks of a JSON string.  Writing escapes the quotation
mark, the backslash and the characters below U+0020, and nothing else.  Reading accepts
all escapes; one of half a surrogate pair is well formed, but a body with one that lacks
its other half stands for no text.  `unescape?_escape` says that reading undoes writing.
-/

namespace Walkthrough.Json

/-- The characters that are escaped by a letter, with their letters. -/
def letterEscapes : List (Char × Char) :=
  [('"', '"'), ('\\', '\\'), ('\x08', 'b'), ('\t', 't'), ('\n', 'n'), ('\x0c', 'f'), ('\r', 'r')]

def escapeChar (c : Char) : Text :=
  match letterEscapes.lookup c with
  | some letter => ['\\', letter]
  | none => if c.toNat < 0x20 then '\\' :: 'u' :: Text.hex 4 c.toNat else [c]

def escape (t : Text) : Text := t.flatMap escapeChar

/-- A character, or one unit of UTF-16 that an escape gives by its number. -/
inductive Piece where
  | character (c : Char)
  | codeUnit (n : Nat)

/-- The character of an escape by a letter. -/
def ofLetter? (letter : Char) : Option Char :=
  if letter = '/' then some '/'
  else (letterEscapes.find? fun entry => entry.2 = letter).map Prod.fst

/-- The pieces of a body; nothing if it is ill formed. -/
def pieces? : Text → Option (List Piece)
  | [] => some []
  | '\\' :: 'u' :: a :: b :: c :: d :: rest =>
    match Text.readHex? [a, b, c, d] with
    | none => none
    | some n => (pieces? rest).map (.codeUnit n :: ·)
  | '\\' :: letter :: rest =>
    match ofLetter? letter with
    | none => none
    | some c => (pieces? rest).map (.character c :: ·)
  | c :: rest =>
    if c = '\\' ∨ c = '"' ∨ c.toNat < 0x20 then none
    else (pieces? rest).map (.character c :: ·)

def isLeadingUnit (n : Nat) : Bool := 0xD800 ≤ n && n < 0xDC00

def isTrailingUnit (n : Nat) : Bool := 0xDC00 ≤ n && n < 0xE000

/-- The character of a surrogate pair. -/
def ofPair (leading trailing : Nat) : Char :=
  .ofNat (0x10000 + (leading - 0xD800) * 0x400 + (trailing - 0xDC00))

/-- The text of some pieces, the first of which completes the leading unit, if there is
one. -/
def assemble? (leading : Option Nat) : List Piece → Option Text
  | [] => if leading.isNone then some [] else none
  | piece :: rest =>
    match leading, piece with
    | none, .character c => (assemble? none rest).map (c :: ·)
    | none, .codeUnit n =>
      if isLeadingUnit n then assemble? (some n) rest
      else if isTrailingUnit n then none
      else (assemble? none rest).map (.ofNat n :: ·)
    | some _, .character _ => none
    | some leading, .codeUnit n =>
      if isTrailingUnit n then (assemble? none rest).map (ofPair leading n :: ·) else none

def isBody (body : Text) : Bool := (pieces? body).isSome

def unescape? (body : Text) : Option Text :=
  match pieces? body with
  | none => none
  | some pieces => assemble? none pieces

/-- The body that a text starts with, up to a quotation mark that no backslash goes
with, and what comes after that mark. -/
def takeBody? : Text → Option (Text × Text)
  | [] => none
  | '"' :: rest => some ([], rest)
  | '\\' :: c :: rest =>
    (takeBody? rest).map fun (body, after) => ('\\' :: c :: body, after)
  | c :: rest => (takeBody? rest).map fun (body, after) => (c :: body, after)

/-- The piece that the escape of a character is read as. -/
def pieceOf (c : Char) : Piece :=
  if letterEscapes.lookup c = none ∧ c.toNat < 0x20 then .codeUnit c.toNat else .character c

theorem letterEscapes_lookup {c letter : Char} (h : letterEscapes.lookup c = some letter) :
    ofLetter? letter = some c ∧ letter ≠ 'u' := by
  simp only [letterEscapes, List.lookup_cons, List.lookup_nil] at h
  repeat' split at h
  all_goals simp_all [ofLetter?, letterEscapes]
  all_goals (subst h; decide)

theorem pieces?_letter {letter c : Char} (h : ofLetter? letter = some c) (differs : letter ≠ 'u')
    (rest : Text) : pieces? ('\\' :: letter :: rest) = (pieces? rest).map (.character c :: ·) := by
  rw [pieces?.eq_def]
  split
  · simp_all
  · simp_all
  · simp_all
  · grind

theorem pieces?_escapeChar (c : Char) (rest : Text) :
    pieces? (escapeChar c ++ rest) = (pieces? rest).map (pieceOf c :: ·) := by
  unfold escapeChar
  split
  · rename_i letter found
    obtain ⟨letterOf, differs⟩ := letterEscapes_lookup found
    simp [pieceOf, found, pieces?_letter letterOf differs]
  · rename_i notFound
    split
    · rename_i control
      have value := Text.readHex?_hex 4 c.toNat
      rw [Nat.mod_eq_of_lt (by simp; omega)] at value
      simp only [Text.hex, List.nil_append, List.cons_append] at value ⊢
      simp [pieces?, value, pieceOf, notFound, control]
    · rename_i plain
      have notQuote : c ≠ '"' := by rintro rfl; simp [letterEscapes] at notFound
      have notBackslash : c ≠ '\\' := by rintro rfl; simp [letterEscapes] at notFound
      simp only [List.singleton_append]
      have piece : pieceOf c = .character c := by simp [pieceOf, plain]
      rw [pieces?.eq_def, piece]
      split
      · simp_all
      · simp_all
      · simp_all
      · grind

theorem assemble?_pieceOf (c : Char) (pieces : List Piece) :
    assemble? none (pieceOf c :: pieces) = (assemble? none pieces).map (c :: ·) := by
  unfold pieceOf
  split
  · rename_i control
    have noLeading : isLeadingUnit c.toNat = false := by simp [isLeadingUnit]; omega
    have noTrailing : isTrailingUnit c.toNat = false := by simp [isTrailingUnit]; omega
    simp [assemble?, noLeading, noTrailing]
  · simp [assemble?]

theorem unescape?_escape (t : Text) : unescape? (escape t) = some t := by
  have pieces : pieces? (escape t) = some (t.map pieceOf) := by
    induction t with
    | nil => rfl
    | cons c t ih => simpa [escape, pieces?_escapeChar] using ih
  have text : assemble? none (t.map pieceOf) = some t := by
    clear pieces
    induction t with
    | nil => rfl
    | cons c t ih => simp [assemble?_pieceOf, ih]
  simp [unescape?, pieces, text]

end Walkthrough.Json
