import Walkthrough.Text.Digits

/-!
# Slices

Positions in a text count its bytes in UTF-8.  A slice of a text is taken between two
positions.  Where no character starts at one of them, or they are in the wrong order, the
computation is broken off, and so it is at an index beyond the end of a list.
-/

namespace Walkthrough

/-- What a computation is broken off with. -/
inductive Panic where
  | text (message : Text)
  | other

def Panic.message : Panic → Text
  | .text message => message
  | .other => "unknown internal error".toList

/-- The entry of a list at an index. -/
def entryAt {α : Type} (entries : List α) (index : Nat) : Except Panic α :=
  match entries[index]? with
  | some entry => .ok entry
  | none =>
    .error (.text ("index out of bounds: the len is ".toList ++ Text.ofNat entries.length ++
      " but the index is ".toList ++ Text.ofNat index))

namespace Text

def byteLength : Text → Nat
  | [] => 0
  | c :: t => c.utf8Size + byteLength t

/-- The position at which `needle` first occurs. -/
def find? (needle t : Text) : Option Nat :=
  (cut? needle t).map fun (before, _) => byteLength before

/-- The position at which a character last occurs. -/
def findLast? (c : Char) (t : Text) : Option Nat :=
  (cut? [c] t.reverse).map fun (_, before) => byteLength before

/-- What stands before and after a position, if a character or the end of the text is there. -/
def splitAt? (position : Nat) : Text → Option (Text × Text)
  | [] => if position = 0 then some ([], []) else none
  | c :: t =>
    if position = 0 then some ([], c :: t)
    else if position < c.utf8Size then none
    else (splitAt? (position - c.utf8Size) t).map fun (before, after) => (c :: before, after)

def unsliceable : Panic := .text "failed to slice string".toList

def sliceFrom (t : Text) (start : Nat) : Except Panic Text :=
  match splitAt? start t with
  | some (_, after) => .ok after
  | none => .error unsliceable

/-- The text from one position up to another. -/
def slice (t : Text) (start stop : Nat) : Except Panic Text :=
  match splitAt? stop t with
  | some (before, _) => sliceFrom before start
  | none => .error unsliceable

theorem byteLength_append (s t : Text) : byteLength (s ++ t) = byteLength s + byteLength t := by
  induction s with
  | nil => exact (Nat.zero_add _).symm
  | cons c s ih => rw [List.cons_append, byteLength, byteLength, ih, Nat.add_assoc]

theorem splitAt?_append (before after : Text) :
    splitAt? (byteLength before) (before ++ after) = some (before, after) := by
  induction before with
  | nil => cases after <;> rfl
  | cons c before ih =>
    have positive : 0 < c.utf8Size := c.utf8Size_pos
    rw [byteLength, List.cons_append, splitAt?, if_neg (by omega), if_neg (by omega),
      Nat.add_sub_cancel_left, ih]
    rfl

theorem sliceFrom_append (before after : Text) :
    sliceFrom (before ++ after) (byteLength before) = .ok after := by
  rw [sliceFrom, splitAt?_append]

theorem slice_append (before inner after : Text) :
    slice (before ++ inner ++ after) (byteLength before) (byteLength (before ++ inner)) =
      .ok inner := by
  rw [slice, splitAt?_append]
  exact sliceFrom_append before inner

end Text

theorem entryAt_eq_ok {α : Type} {entries : List α} {index : Nat} {entry : α}
    (h : entries[index]? = some entry) : entryAt entries index = .ok entry := by
  rw [entryAt, h]

end Walkthrough
