import Clausal.Substitution

/-!
# Unification

Equations between terms are solved from left to right under the bindings found so far: `settle`
makes moves until a variable has to be bound, and `solve` binds it and goes on. Declared arities
play no part: heads agree when their names and their numbers of arguments do.
-/

namespace Clausal

set_option autoImplicit false

/-- Why two terms have no unifier. -/
inductive Conflict where
  | headsDiffer (left right : String)
  | argumentCountsDiffer (head : String) (left right : Nat)
  | shapesDiffer (left right : Term)
  | cyclic (v : String) (t : Term)
  | endless
deriving DecidableEq

namespace Conflict

def message : Conflict → String
  | headsDiffer left right => "functor mismatch: " ++ left ++ " vs " ++ right
  | argumentCountsDiffer head left right =>
    "arity mismatch for " ++ head ++ ": " ++ left.repr ++ " vs " ++ right.repr
  | shapesDiffer left right => "cannot unify " ++ left.text ++ " with " ++ right.text
  | cyclic v t => "cyclic binding: " ++ v ++ " occurs in " ++ t.text
  | endless => "bindings refer to themselves"

end Conflict

namespace Unification

structure Equation where
  left : Term
  right : Term
deriving DecidableEq

/-- What one equation asks for. -/
inductive Move where
  /-- Both sides are equal already. -/
  | drop
  /-- A side is a variable that has a binding, which takes its place. -/
  | follow (equation : Equation)
  /-- A side is an unbound variable. -/
  | assign (v : String) (t : Term)
  /-- The heads agree and the arguments remain. -/
  | split (equations : List Equation)
  | fail (conflict : Conflict)

/-- The move for a variable against a term that is not this variable. -/
def moveVariable (s : Substitution) (v : String) (t : Term) : Move :=
  match s.get? v with
  | some bound => .follow ⟨bound, t⟩
  | none => if t.mentions v then .fail (.cyclic v t) else .assign v t

/-- The move for two terms in which the bindings have been put in. -/
def moveTerms (s : Substitution) (t u : Term) : Move :=
  if t = u then .drop
  else
    match t, u with
    | .var v, u => moveVariable s v u
    | t, .var v => moveVariable s v t
    | .app f ts, .app g us =>
      if f.name ≠ g.name then .fail (.headsDiffer f.name g.name)
      else if ts.length ≠ us.length then
        .fail (.argumentCountsDiffer f.name ts.length us.length)
      else .split (List.zipWith Equation.mk ts us)
    | t, u => .fail (.shapesDiffer t u)

/-- The move for an equation: the bindings are put in first, once. -/
def move (s : Substitution) (e : Equation) : Move := moveTerms s (e.left.subst s) (e.right.subst s)

/-- Where moves under fixed bindings lead. -/
inductive Outcome where
  | solved
  | assign (v : String) (t : Term) (remaining : List Equation)
  | failed (conflict : Conflict)
  | unfinished

/-- Makes at most the given number of moves, up to the first variable to bind. -/
def settle (s : Substitution) : Nat → List Equation → Outcome
  | 0, _ => .unfinished
  | _ + 1, [] => .solved
  | n + 1, e :: es =>
    match move s e with
    | .drop => settle s n es
    | .follow e' => settle s n (e' :: es)
    | .split es' => settle s n (es' ++ es)
    | .assign v t => .assign v t es
    | .fail c => .failed c

/-- The total size of the terms in a list of equations. -/
def weight : List Equation → Nat
  | [] => 0
  | e :: es => e.left.size + e.right.size + weight es

/-- Moves that suffice under the given bindings. -/
def allowance (s : Substitution) (es : List Equation) : Nat :=
  Nat.pow (weight es + Term.sizes s.bindings.values + 2) (s.size + 3)

/-- Solves the equations with at most the given number of runs between bindings. -/
def solve : Nat → Substitution → List Equation → Except Conflict Substitution
  | 0, _, _ => .error .endless
  | n + 1, s, es =>
    match settle s (allowance s es) es with
    | .solved => .ok s
    | .assign v t remaining => solve n (s.bind v t) remaining
    | .failed c => .error c
    | .unfinished => .error .endless

/-- The variables that stand in the equations or in bound terms, repetitions included. -/
def candidates (s : Substitution) (es : List Equation) : List String :=
  es.flatMap (fun e => e.left.occurrences ++ e.right.occurrences) ++
    s.toList.flatMap (·.2.occurrences)

end Unification

/-- Extends a substitution to one that makes two terms equal. -/
def unifyUnder (s : Substitution) (t u : Term) : Except Conflict Substitution :=
  let problem := [Unification.Equation.mk t u]
  Unification.solve ((Unification.candidates s problem).length + 1) s problem

def unify (t u : Term) : Except Conflict Substitution := unifyUnder .empty t u

end Clausal
