import Clausal.Clause
import Clausal.Json.Basic

/-!
# Terms, literals and clauses as JSON

Any names and any declared arities are accepted; the rules of the text form do not apply. Unknown
fields are ignored.
-/

namespace Clausal

set_option autoImplicit false

namespace Symbol

def toJson (f : Symbol) : Json := .obj [("name", .str f.name), ("arity", .ofNat f.arity)]

def ofJson? (j : Json) : Option Symbol := do
  let name ← j.required? "name" Json.str?
  let arity ← j.required? "arity" Json.count?
  return ⟨name, arity⟩

end Symbol

namespace Term

mutual

def toJson : Term → Json
  | const n => .obj [("Constant", .ofName n)]
  | var n => .obj [("Variable", .ofName n)]
  | app f ts => .obj [("Compound", .arr [f.toJson, .arr (toJsonArgs ts)])]

def toJsonArgs : List Term → List Json
  | [] => []
  | t :: ts => toJson t :: toJsonArgs ts

end

mutual

def ofJson? : Json → Option Term
  | .obj [("Constant", j)] => j.name?.map const
  | .obj [("Variable", j)] => j.name?.map var
  | .obj [("Compound", .arr [f, .arr ts])] =>
    match Symbol.ofJson? f, ofJsonArgs? ts with
    | some f, some ts => some (app f ts)
    | _, _ => none
  | _ => none

def ofJsonArgs? : List Json → Option (List Term)
  | [] => some []
  | j :: js =>
    match ofJson? j, ofJsonArgs? js with
    | some t, some ts => some (t :: ts)
    | _, _ => none

end

end Term

namespace Literal

def toJson (l : Literal) : Json := .obj [("polarity", .bool l.positive), ("term", l.term.toJson)]

def ofJson? (j : Json) : Option Literal := do
  let positive ← j.required? "polarity" Json.bool?
  let term ← j.required? "term" Term.ofJson?
  return ⟨positive, term⟩

end Literal

namespace Clause

def toJson (c : Clause) : Json := .obj [("literals", .ofList Literal.toJson c.toList)]

/-- Reads the literals in any order and with any repetition. -/
def ofJson? (j : Json) : Option Clause :=
  (j.required? "literals" (Json.list? Literal.ofJson?)).map ofList

end Clause

end Clausal
