import Clausal.Literal
import Clausal.Text.Diagnosis

/-!
# Reading literals and terms

A reading yields a value and the characters after it, or stops at a suffix of the text, from which
the fault is told. After an argument a comma goes on with the list only if a name follows it;
otherwise reading stops at the comma itself. The depth counts calls within each other; one more
than the number of characters is always enough.
-/

namespace Clausal.Text

set_option autoImplicit false

/-- A value and what follows it, or the rest of the text where reading stopped. -/
abbrev Reading (α : Type) := Except (List Char) (α × List Char)

mutual

/-- Reads a term that starts with the first character. -/
def readTerm : Nat → List Char → Reading Term
  | 0, text => .error text
  | depth + 1, text =>
    let name := text.takeWhile isNameChar
    let rest := text.dropWhile isNameChar
    if name.isEmpty then .error text
    else
      match skipBlanks rest with
      | '(' :: inner =>
        match readTerm depth (skipBlanks inner) with
        | .error stop => .error stop
        | .ok (first, rest) =>
          match readArguments depth rest with
          | .error stop => .error stop
          | .ok (others, rest) =>
            .ok (.compound (String.ofList name) (first :: others), rest)
      | _ => .ok (.ofName (String.ofList name), rest)

/-- Reads the arguments after the first one and the closing parenthesis. -/
def readArguments : Nat → List Char → Reading (List Term)
  | 0, text => .error text
  | depth + 1, text =>
    match skipBlanks text with
    | ')' :: rest => .ok ([], rest)
    | ',' :: rest =>
      if startsWithName (skipBlanks rest) then
        match readTerm depth (skipBlanks rest) with
        | .error stop => .error stop
        | .ok (next, rest) =>
          match readArguments depth rest with
          | .error stop => .error stop
          | .ok (others, rest) => .ok (next :: others, rest)
      else .error (',' :: rest)
    | stop => .error stop

end

/-- Reads a term with an optional negation in front. -/
def readLiteral (depth : Nat) (text : List Char) : Reading Literal :=
  match text with
  | [] => .error []
  | c :: rest =>
    if isNegation c then (readTerm depth (skipBlanks rest)).map (fun r => (⟨false, r.1⟩, r.2))
    else (readTerm depth text).map (fun r => (⟨true, r.1⟩, r.2))

/-- Reads a whole text, with blanks before and after the value. -/
def readAll {α : Type} (read : Nat → List Char → Reading α) (text : List Char) :
    Except (List Char) α :=
  match read (text.length + 1) (skipBlanks text) with
  | .error stop => .error stop
  | .ok (value, rest) =>
    match skipBlanks rest with
    | [] => .ok value
    | stop => .error stop

/-- Reads a whole input, which has to show more than white space. -/
def parseWith {α : Type} (read : Nat → List Char → Reading α) (input : String) : Except Fault α :=
  if input.toList.all isWhiteSpace then .error .empty
  else
    match readAll read input.toList with
    | .ok value => .ok value
    | .error rest => .error ((Stop.ofRest input.toList rest).fault input)

end Clausal.Text

namespace Clausal

set_option autoImplicit false

def Term.parse (input : String) : Except Text.Fault Term := Text.parseWith Text.readTerm input

def Literal.parse (input : String) : Except Text.Fault Literal :=
  Text.parseWith Text.readLiteral input

def Literal.parseGround (input : String) : Except Text.Fault Literal :=
  match Literal.parse input with
  | .error fault => .error fault
  | .ok l => if l.isGround then .ok l else .error (.notGround input)

end Clausal
