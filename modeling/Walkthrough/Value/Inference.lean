import Walkthrough.Dictionary
import Walkthrough.Text.Blank
import Walkthrough.Text.Fields
import Walkthrough.Value

/-!
# Inferring a value

The value of the text on the right of an assignment, by the first rule that applies:
a number, a text in quotes, a bracketed list, a variable that is known, and else the
placeholder.  Lists are cut at every comma, whatever brackets or quotes stand around
it.  Nothing is evaluated.
-/

namespace Walkthrough

/-- The variables that a walkthrough has met, with their last values. -/
abbrev Environment := Dictionary Value

/-- A whole number in the decimal system, if it fits into 32 bits. -/
def Text.readInt32? (t : Text) : Option Int32 :=
  let (negative, digits) := takeSign t
  let n : Int := if negative then -digitsValue digits else digitsValue digits
  if isDigits digits ∧ -2147483648 ≤ n ∧ n ≤ 2147483647 then some (.ofInt n) else none

/-- A decimal literal with a point.  If the text itself is none, one letter that marks
a floating-point literal may end it. -/
def Text.readDouble? (t : Text) : Option Double :=
  let trimmed := trim t
  let body := match DecimalLiteral.read? trimmed with
    | some literal => some literal
    | none =>
      if trimmed.getLast?.any (· ∈ ['f', 'F', 'd', 'D']) then
        DecimalLiteral.read? trimmed.dropLast
      else none
  body.map DecimalLiteral.toDouble

namespace Value

/-- A number: a double if there is a point in the text, and else a 32-bit integer. -/
def readNumber? (t : Text) : Option Value :=
  if t.contains '.' then (Text.readDouble? t).map double else (Text.readInt32? t).map int

def isQuote (c : Char) : Bool := c = '"' || c = '\''

/-- An element of a bracketed list: a number, or the text less all quotation marks. -/
def ofElement (t : Text) : Value := (readNumber? t).getD (text (Text.without isQuote t))

/-- The elements of a list, which are cut at every comma. -/
def elementsIn (content : Text) : List Value :=
  (Text.fields ',' content).map fun item => ofElement (Text.trim item)

/-- The elements between the first `[` and the last `]`, cut at every comma.  Without
a `[` there are no elements; a `[` that no `]` follows is no list. -/
def readList? (t : Text) : Option (List Value) :=
  match Text.cut? ['['] t with
  | none => some []
  | some (_, opened) =>
    match Text.cut? [']'] opened.reverse with
    | none => none
    | some (_, content) => some (elementsIn content.reverse)

/-- The text less its first and its last character. -/
def withoutEnds (t : Text) : Text := t.tail.dropLast

/-- The text that inference looks at: semicolons and outer blanks are left out. -/
def normalize (rhs : Text) : Text := Text.trim (Text.without (· = ';') (Text.trim rhs))

def inferNormalized (t : Text) (env : Environment) : Value :=
  match readNumber? t with
  | some number => number
  | none =>
    if t.head?.any isQuote then text (withoutEnds t)
    else
      match if t.contains '[' || t.contains '\x7b' then readList? t else none with
      | some items => list items
      | none => (env.get? t).getD placeholder

def infer (rhs : Text) (env : Environment) : Value := inferNormalized (normalize rhs) env

end Value
end Walkthrough
