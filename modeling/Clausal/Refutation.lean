import Clausal.Clause

/-!
# Refutations

Every clause of a search has an origin. A refutation lists the clauses on which one clause rests,
found by following origins back from it. Nothing is assumed of the origins: they may lead out of
the list, in which case there is no refutation, or back to where they started.
-/

namespace Clausal

set_option autoImplicit false

inductive Origin where
  | given
  | negatedQuery
  /-- Resolved from the clauses at two indices. -/
  | resolved (left right : Nat)
deriving DecidableEq

namespace Origin

/-- The indices of the clauses that a clause was resolved from. -/
def premises : Origin → List Nat
  | given => []
  | negatedQuery => []
  | resolved left right => [left, right]

def text : Origin → String
  | given => "input"
  | negatedQuery => "negated query"
  | resolved left right => "resolution " ++ left.repr ++ ", " ++ right.repr

end Origin

structure Step where
  index : Nat
  origin : Origin
  conclusion : Clause
deriving DecidableEq

namespace Step

def text (s : Step) : String :=
  "[" ++ s.index.repr ++ "] " ++ s.conclusion.text ++ "  (" ++ s.origin.text ++ ")"

end Step

/-- The steps on which the clause at index `root` rests, in increasing order of their indices. -/
structure Refutation where
  steps : List Step
  root : Nat
deriving DecidableEq

namespace Refutation

def size (r : Refutation) : Nat := r.steps.length

def isEmpty (r : Refutation) : Bool := r.steps.isEmpty

def text (r : Refutation) : String := String.join (r.steps.map (fun s => s.text ++ "\n"))

/-- The indices reached from the pending ones, added to those seen; none if one leads out of the
list. Each index adds its premises to the pending ones once, which bounds the number of turns. -/
def reach (clauses : List Clause) (origins : List Origin) :
    Nat → List Nat → List Nat → Option (List Nat)
  | 0, _, _ => none
  | _ + 1, [], seen => some seen
  | turns + 1, i :: pending, seen =>
    if i ∈ seen then reach clauses origins turns pending seen
    else if i < clauses.length then
      match origins[i]? with
      | none => none
      | some origin => reach clauses origins turns (origin.premises ++ pending) (i :: seen)
    else none

/-- The step for an index inside both lists. -/
def step? (clauses : List Clause) (origins : List Origin) (i : Nat) : Option Step :=
  match origins[i]?, clauses[i]? with
  | some origin, some conclusion => some ⟨i, origin, conclusion⟩
  | _, _ => none

/-- Everything on which the clause at index `root` rests. -/
def extract (clauses : List Clause) (origins : List Origin) (root : Nat) : Option Refutation :=
  match reach clauses origins (2 * origins.length + 2) [root] [] with
  | none => none
  | some seen =>
    some ⟨((List.range clauses.length).filter (· ∈ seen)).filterMap (step? clauses origins), root⟩

end Refutation

end Clausal
