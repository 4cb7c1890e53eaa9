import Walkthrough.Text.Basic

/-!
# Lower case

Lower-casing as far as a comparison with an ASCII word can see it: the capital
letters A to Z, and the two other characters whose lower case holds an ASCII letter,
the capital I with dot above and the Kelvin sign.  Every other character is kept; its
lower case has no ASCII character, so no ASCII word is met or missed by keeping it.
-/

namespace Walkthrough

def lowerCase (c : Char) : Text :=
  if c = '\u0130' then ['i', '\u0307']
  else if c = '\u212A' then ['k']
  else [c.toLower]

def Text.lowerCase (t : Text) : Text := t.flatMap Walkthrough.lowerCase

end Walkthrough
