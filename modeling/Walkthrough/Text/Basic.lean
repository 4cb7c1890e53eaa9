/-!
# Texts

A text is the list of its characters, so that cutting, counting and searching are
list operations.  Here: where one text occurs in another (`Text.cut?`,
`Text.occursIn`), the text before a stop character (`Text.upTo`), and the lines of
a text (`Text.lines`).  `Text.cut?_eq_append` says that a cut loses nothing.
-/

namespace Walkthrough

abbrev Text := List Char

namespace Text

/-- What stands before and after the first occurrence of `needle`. -/
def cut? (needle : Text) : Text → Option (Text × Text)
  | [] => if needle.isEmpty then some ([], []) else none
  | c :: rest =>
    if needle.isPrefixOf (c :: rest) then some ([], (c :: rest).drop needle.length)
    else (cut? needle rest).map fun (before, after) => (c :: before, after)

def occursIn (needle t : Text) : Bool := (cut? needle t).isSome

/-- The text before the first character that `stop` accepts; all of it if none does. -/
def upTo (stop : Char → Bool) (t : Text) : Text := t.takeWhile fun c => !stop c

/-- A text with every character that `unwanted` accepts left out. -/
def without (unwanted : Char → Bool) (t : Text) : Text := t.filter fun c => !unwanted c

/-- A text with `piece` in place of every `c`. -/
def replace (t : Text) (c : Char) (piece : Text) : Text :=
  t.flatMap fun d => if d = c then piece else [d]

def join (separator : Text) (parts : List Text) : Text := separator.intercalate parts

/-- A line without the carriage return that belongs to its line end. -/
def dropCarriageReturn (t : Text) : Text :=
  if t.getLast? = some '\r' then t.dropLast else t

/-- The lines of a text.  A line feed ends a line, together with a carriage return
just before it; what follows the last line feed is a line unless it is empty, and
keeps a carriage return at its end. -/
def lines (t : Text) : List Text :=
  let pieces := t.splitOn '\n'
  pieces.dropLast.map dropCarriageReturn ++ pieces.getLast?.toList.filter (!·.isEmpty)

theorem cut?_eq_append {needle t before after : Text} (h : cut? needle t = some (before, after)) :
    t = before ++ needle ++ after := by
  induction t generalizing before with
  | nil =>
    simp only [cut?] at h
    split at h
    · rename_i empty
      simp only [Option.some.injEq, Prod.mk.injEq] at h
      simp [← h.1, ← h.2, List.isEmpty_iff.1 empty]
    · cases h
  | cons c rest ih =>
    simp only [cut?] at h
    split at h
    · rename_i starts
      obtain ⟨tail, ht⟩ := List.isPrefixOf_iff_prefix.1 starts
      simp only [Option.some.injEq, Prod.mk.injEq] at h
      simp [← h.1, ← h.2, ← ht]
    · obtain ⟨⟨before', after'⟩, hc, hp⟩ := Option.map_eq_some_iff.1 h
      simp only [Prod.mk.injEq] at hp
      obtain ⟨rfl, rfl⟩ := hp
      simpa using ih hc

theorem occursIn_iff {needle t : Text} : occursIn needle t = true ↔ needle <:+: t := by
  constructor
  · intro h
    obtain ⟨⟨before, after⟩, hc⟩ := Option.isSome_iff_exists.1 h
    exact ⟨before, after, (cut?_eq_append hc).symm⟩
  · rintro ⟨before, after, rfl⟩
    induction before with
    | nil =>
      cases needle with
      | nil => cases after <;> simp [occursIn, cut?]
      | cons c needle =>
        have starts : (c :: needle).isPrefixOf (c :: (needle ++ after)) = true :=
          List.isPrefixOf_iff_prefix.2 ⟨after, rfl⟩
        simp only [List.nil_append, List.cons_append, occursIn, cut?, starts, if_true,
          Option.isSome_some]
    | cons c before ih =>
      simp only [List.cons_append, occursIn, cut?]
      split
      · rfl
      · simpa [occursIn, List.append_assoc] using ih

end Text
end Walkthrough
