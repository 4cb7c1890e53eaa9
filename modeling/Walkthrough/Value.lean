import Walkthrough.Double.Layout

/-!
# Values

What a walkthrough attaches to variables, parameters and memory objects.  A value is
read off the text of a literal and never computed; where no literal is recognised the
placeholder stands.
-/

namespace Walkthrough

inductive Value where
  | int (n : Int32)
  | double (x : Double)
  | text (t : Text)
  | list (items : List Value)
  | placeholder
  deriving Inhabited

namespace Value

def placeholderText : Text := "value".toList

/-- The type shown beside a memory object. -/
def typeTag : Value → Text
  | .int _ => "int".toList
  | .double _ => "double".toList
  | .text _ => "String".toList
  | .list _ => "List/Array".toList
  | .placeholder => "Object".toList

def items? : Value → Option (List Value)
  | .list items => some items
  | _ => none

/-- An element counts as a list also when it is the text of one, which the flat cut at
commas leaves with its opening bracket. -/
def isListShaped : Value → Bool
  | .list _ => true
  | .text t => t.head? == some '['
  | _ => false

/-- A displayed double is positional from `0.0001` up to below `10 ^ 16`; of two equally
near digit strings the upper one is shown. -/
def displayLayout : Double.Layout := ⟨.upward, -4, 15, false⟩

def displayDouble (x : Double) : Text :=
  if x.isFinite then displayLayout.write x
  else if x.isNaN then "NaN".toList
  else if x.isNegative then "-inf".toList
  else "inf".toList

mutual
/-- The text of a value for readers.  Quotation marks inside a text are not marked. -/
def display : Value → Text
  | .int n => Text.ofInt n.toInt
  | .double x => displayDouble x
  | .text t => ['"'] ++ t ++ ['"']
  | .list items => ['['] ++ Text.join ", ".toList (displayAll items) ++ [']']
  | .placeholder => placeholderText

def displayAll : List Value → List Text
  | [] => []
  | v :: rest => v.display :: displayAll rest
end

theorem displayAll_eq_map (items : List Value) : displayAll items = items.map display := by
  induction items with
  | nil => rfl
  | cons v rest ih => simp [displayAll, ih]

end Value
end Walkthrough
