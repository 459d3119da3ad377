/-!
# Faults of a text

The reasons for which a text is refused, and their wording.
-/

namespace Clausal.Text

set_option autoImplicit false

/-- Why a text is not a literal, a term or a fact. -/
inductive Fault where
  /-- There is nothing but white space. -/
  | empty
  /-- A name is missing in front of a parenthesis or at the end. -/
  | missingName (input : String)
  /-- There is nothing where an argument should be. -/
  | emptyArgument (input : String)
  | unbalanced (input : String)
  /-- The text goes on after a complete term. -/
  | trailing (input : String)
  /-- A negation stands somewhere else than in front of a whole literal. -/
  | nestedNegation (input : String)
  /-- A name has characters that names cannot have. -/
  | invalidName (name input : String)
  /-- A fact has variables. -/
  | notGround (input : String)
deriving DecidableEq

namespace Fault

def message : Fault → String
  | empty => "empty literal"
  | missingName input => "missing functor name in '" ++ input ++ "'"
  | emptyArgument input => "empty argument in '" ++ input ++ "'"
  | unbalanced input => "unbalanced parentheses in '" ++ input ++ "'"
  | trailing input => "unexpected text after closing parenthesis in '" ++ input ++ "'"
  | nestedNegation input =>
    "negation is only allowed in front of a whole literal: '" ++ input ++ "'"
  | invalidName name input => "invalid symbol '" ++ name ++ "' in '" ++ input ++ "'"
  | notGround input => "fact '" ++ input ++ "' contains variables"

end Fault

end Clausal.Text
