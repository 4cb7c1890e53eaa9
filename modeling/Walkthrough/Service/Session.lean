import Walkthrough.Service.Command
import Walkthrough.Text.Utf8

/-!
# Sessions

The bytes of one connection are read line by line, up to each line feed, and every line
that is not blank is answered with one line (`serve`).  A line that is not UTF-8 ends the
connection, and what comes after it is not read.

What a session comes to can be said of the whole stream at once, cut after each line feed
(`pieces`).
-/

namespace Walkthrough.Session

def lineFeed : UInt8 := 10

/-! ## Line by line -/

/-- The bytes up to the first line feed and with it, or all of them if there is none, and
the bytes that are left. -/
def takeLine : List UInt8 → List UInt8 × List UInt8
  | [] => ([], [])
  | byte :: rest =>
    if byte = lineFeed then ([byte], rest)
    else (byte :: (takeLine rest).1, (takeLine rest).2)

theorem length_takeLine_le (bytes : List UInt8) : (takeLine bytes).2.length ≤ bytes.length := by
  induction bytes with
  | nil => exact Nat.le_refl 0
  | cons byte rest ih =>
    simp only [takeLine]
    split
    · exact Nat.le_succ rest.length
    · exact Nat.le_succ_of_le ih

theorem length_takeLine_lt {bytes : List UInt8} (h : bytes ≠ []) :
    (takeLine bytes).2.length < bytes.length := by
  cases bytes with
  | nil => exact absurd rfl h
  | cons byte rest =>
    simp only [takeLine]
    split
    · exact Nat.lt_succ_self rest.length
    · exact Nat.lt_succ_of_le (length_takeLine_le rest)

/-- How a connection went. -/
structure Outcome where
  replies : List Json
  /-- The connection ended without an error. -/
  isClean : Bool

/-- What comes of the bytes that are left after some requests have been answered.  Each
request has a run of its own. -/
def serve (runs : Nat → Run) (answered : Nat) (bytes : List UInt8) : Outcome :=
  if _ : bytes = [] then ⟨[], true⟩
  else
    match Text.ofUtf8? (takeLine bytes).1 with
    | none => ⟨[], false⟩
    | some line =>
      let trimmed := Text.trim line
      if trimmed.isEmpty then serve runs answered (takeLine bytes).2
      else
        let later := serve runs (answered + 1) (takeLine bytes).2
        { later with replies := Command.reply (runs answered) trimmed :: later.replies }
termination_by bytes.length
decreasing_by all_goals exact length_takeLine_lt ‹_›

/-! ## The whole stream -/

/-- The pieces of a byte stream, each with the line feed that ends it; the last one may
lack it. -/
def pieces : List UInt8 → List (List UInt8)
  | [] => []
  | byte :: rest =>
    if byte = lineFeed then [byte] :: pieces rest
    else
      match pieces rest with
      | [] => [[byte]]
      | piece :: others => (byte :: piece) :: others

/-- The texts of the pieces before the first one that is not UTF-8. -/
def validTexts : List (List UInt8) → List Text
  | [] => []
  | piece :: rest =>
    match Text.ofUtf8? piece with
    | none => []
    | some t => t :: validTexts rest

/-- The lines of a stream that are answered. -/
def requestLines (bytes : List UInt8) : List Text :=
  ((validTexts (pieces bytes)).map Text.trim).filter (!·.isEmpty)

/-- Whether all pieces of a stream are UTF-8. -/
def isClean (bytes : List UInt8) : Bool :=
  (pieces bytes).all fun piece => (Text.ofUtf8? piece).isSome

end Walkthrough.Session
