import Clausal.Text.Alphanumeric

/-!
# Names

The characters of names and the signs of negation.
-/

namespace Clausal.Text

set_option autoImplicit false

/-- Names are made of alphanumeric characters, underscores and question marks. -/
def isNameChar (c : Char) : Bool := isAlphanumeric c || c = '_' || c = '?'

/-- A literal is negated by `¬` or by `~`. -/
def isNegation (c : Char) : Bool := c = '¬' || c = '~'

def startsWithName : List Char → Bool
  | [] => false
  | c :: _ => isNameChar c

end Clausal.Text
