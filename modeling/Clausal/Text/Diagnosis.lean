import Clausal.Text.Blank
import Clausal.Text.Name
import Clausal.Text.Fault

/-!
# Diagnosis

What is wrong with a text, told from the place where reading stopped. The characters next to that
place and the parentheses read before it decide.
-/

namespace Clausal.Text

set_option autoImplicit false

/-- The place where reading stopped: the characters read, and those that remain. -/
structure Stop where
  consumed : List Char
  rest : List Char
deriving DecidableEq

namespace Stop

/-- The place in a text with the given rest. -/
def ofRest (text rest : List Char) : Stop := ⟨text.take (text.length - rest.length), rest⟩

/-- What was read, without the white space at its end. -/
def before (s : Stop) : List Char := trimEnd s.consumed

/-- More parentheses have been opened than closed. -/
def isOpen (s : Stop) : Bool := s.consumed.count ')' < s.consumed.count '('

/-- The last character in front of the white space before the stop has a property. -/
def follows (s : Stop) (p : Char → Bool) : Bool := s.before.getLast?.any p

/-- White space and punctuation end a misspelt name. -/
def endsName (c : Char) : Bool := isWhiteSpace c || c = ',' || c = '(' || c = ')'

/-- The misspelt name around the stop: the name characters before it, the white space up to it
and the characters after it up to the next white space or punctuation. -/
def misspelt (s : Stop) : List Char :=
  let start := (s.before.reverse.dropWhile isNameChar).length
  s.consumed.drop start ++ s.rest.takeWhile (fun c => !endsName c)

def fault (input : String) (s : Stop) : Fault :=
  match s.rest with
  | [] => if s.isOpen then .unbalanced input else .missingName input
  | c :: _ =>
    if isNegation c then .nestedNegation input
    else if c = ')' then
      if s.follows (fun d => d = '(' || d = ',') then .emptyArgument input else .unbalanced input
    else if c = ',' then
      if s.isOpen then .emptyArgument input else .trailing input
    else if c = '(' then
      if s.before.isEmpty || s.follows (fun d => d = '(' || d = ',' || isNegation d) then
        .missingName input
      else .trailing input
    else if isNameChar c && !s.isOpen && !s.follows isNameChar then .trailing input
    else .invalidName (String.ofList s.misspelt) input

end Stop

end Clausal.Text
