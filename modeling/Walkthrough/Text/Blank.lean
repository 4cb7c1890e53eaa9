import Walkthrough.Text.Basic

/-!
# Blank characters

The twenty-five characters with the property White_Space: tab to carriage return,
space, next line, no-break space, the spaces of general punctuation and the
ideographic space.  The zero-width space and the byte-order mark are not among
them.  `Text.trim` removes blanks at both ends, `Text.words` keeps the maximal runs
between blanks.
-/

namespace Walkthrough

def isBlank (c : Char) : Bool :=
  let n := c.toNat
  (0x09 ≤ n && n ≤ 0x0D) || n == 0x20 || n == 0x85 || n == 0xA0 || n == 0x1680 ||
  (0x2000 ≤ n && n ≤ 0x200A) || n == 0x2028 || n == 0x2029 || n == 0x202F ||
  n == 0x205F || n == 0x3000

namespace Text

def trimStart (t : Text) : Text := t.dropWhile isBlank

def trimEnd (t : Text) : Text := (t.reverse.dropWhile isBlank).reverse

def trim (t : Text) : Text := trimEnd (trimStart t)

def words (t : Text) : List Text := (t.splitOnP isBlank).filter (!·.isEmpty)

end Text
end Walkthrough
