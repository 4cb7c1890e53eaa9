import Walkthrough.Text.Basic

/-!
# Separated fields

`Text.fields` cuts a text at every separator and drops the empty fields at the end.
A text without a separator is one field, also when it is empty, so the empty text has
one field and a text of separators only has none.
-/

namespace Walkthrough.Text

def dropTrailingEmpty (parts : List Text) : List Text :=
  (parts.reverse.dropWhile List.isEmpty).reverse

def fields (separator : Char) (t : Text) : List Text :=
  match t.splitOn separator with
  | [whole] => [whole]
  | parts => dropTrailingEmpty parts

end Walkthrough.Text
