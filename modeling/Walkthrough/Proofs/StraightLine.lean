import Walkthrough.Line.Assignment
import Walkthrough.Value.Inference

/-!
# Straight-line programs

A language small enough to have a plain meaning: one assignment a line, of a literal or
of another variable.  `Statement.render` and `source` write its programs, `storeAfter` is
what they mean.  The forms carry the conditions under which a line can be read back, so
every program of these types is one that a walkthrough has to get right.
-/

namespace Walkthrough.StraightLine

/-! ## Syntax -/

def isIdentifierStart (c : Char) : Bool := c.isAlpha || c = '_'

def isIdentifierChar (c : Char) : Bool := c.isAlphanum || c = '_'

structure Identifier where
  text : Text
  first : ∃ c rest, text = c :: rest ∧ isIdentifierStart c = true
  chars : ∀ c ∈ text, isIdentifierChar c = true

inductive Sign where
  | unsigned
  | plus
  | minus

def Sign.render : Sign → Text
  | .unsigned => []
  | .plus => ['+']
  | .minus => ['-']

def Sign.apply (n : Nat) : Sign → Int
  | .minus => -n
  | _ => n

/-- A decimal numeral, with any leading zeros, of a number that fits into 32 bits. -/
structure Numeral where
  sign : Sign
  digits : Text
  isDigits : Text.isDigits digits = true
  lower : -2147483648 ≤ sign.apply (Text.digitsValue digits)
  upper : sign.apply (Text.digitsValue digits) ≤ 2147483647

def Numeral.render (n : Numeral) : Text := n.sign.render ++ n.digits

def Numeral.value (n : Numeral) : Value := .int (.ofInt (n.sign.apply (Text.digitsValue n.digits)))

/-- A text between two equal quotation marks, which may hold more of them. -/
structure Quotation where
  mark : Char
  content : Text
  isMark : mark = '"' ∨ mark = '\''
  oneLine : '\n' ∉ content
  noSemicolon : ';' ∉ content
  noEquals : '=' ∉ content

def Quotation.render (q : Quotation) : Text := q.mark :: q.content ++ [q.mark]

inductive Item where
  | numeral (n : Numeral)
  | quotation (q : Quotation) (noComma : ',' ∉ q.content) (noDouble : '"' ∉ q.content)
      (noSingle : '\'' ∉ q.content)

def Item.render : Item → Text
  | .numeral n => n.render
  | .quotation q _ _ _ => q.render

def Item.value : Item → Value
  | .numeral n => n.value
  | .quotation q _ _ _ => .text q.content

/-- An item of a list with the numbers of spaces around it. -/
structure Element where
  before : Nat
  item : Item
  after : Nat

def Element.render (e : Element) : Text :=
  List.replicate e.before ' ' ++ e.item.render ++ List.replicate e.after ' '

inductive Expression where
  | numeral (n : Numeral)
  | quotation (q : Quotation)
  | list (first : Element) (rest : List Element)
  | copy (source : Identifier)

def Expression.render : Expression → Text
  | .numeral n => n.render
  | .quotation q => q.render
  | .list first rest => '[' :: Text.join [','] ((first :: rest).map Element.render) ++ [']']
  | .copy x => x.text

/-- A declaration keyword with the number of spaces that follow it beside the first. -/
structure Modifier where
  word : Text
  isModifier : word ∈ ["var".toList, "let".toList, "const".toList, "int".toList,
    "String".toList, "double".toList, "float".toList, "final".toList]
  moreSpaces : Nat

def Modifier.render (m : Modifier) : Text := m.word ++ List.replicate (m.moreSpaces + 1) ' '

structure Statement where
  modifiers : List Modifier
  target : Identifier
  expression : Expression
  hasSemicolon : Bool

def Statement.render (s : Statement) : Text :=
  s.modifiers.flatMap Modifier.render ++ s.target.text ++ " = ".toList ++ s.expression.render ++
    (if s.hasSemicolon then [';'] else [])

/-- The text of a program, one statement a line. -/
def source (program : List Statement) : Text := Text.join ['\n'] (program.map Statement.render)

/-! ## Meaning -/

/-- The variables that are bound, with their values. -/
abbrev Store := Text → Option Value

def Expression.eval (store : Store) : Expression → Value
  | .numeral n => n.value
  | .quotation q => .text q.content
  | .list first rest => .list ((first :: rest).map (·.item.value))
  | .copy x => (store x.text).getD .placeholder

def Statement.exec (store : Store) (s : Statement) : Store := fun name =>
  if name = s.target.text then some (s.expression.eval store) else store name

/-- The store that a program leaves when it starts with no variables. -/
def storeAfter (program : List Statement) : Store := program.foldl Statement.exec fun _ => none

end Walkthrough.StraightLine
