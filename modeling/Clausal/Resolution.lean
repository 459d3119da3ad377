import Clausal.Unification

/-!
# Resolution

Two clauses resolve on a literal of each if the signs differ and the terms unify. The conclusion
holds the other literals of both clauses under the unifier. Variables are not renamed: a name that
occurs in both clauses is the same variable.
-/

namespace Clausal

set_option autoImplicit false

/-- A clause concluded from two others, the literals resolved on and their unifier. -/
structure Resolvent where
  conclusion : Clause
  left : Literal
  right : Literal
  unifier : Substitution
deriving DecidableEq

namespace Resolution

/-- What became of one pair of literals with different signs. -/
inductive Attempt where
  | resolved (resolvent : Resolvent)
  | skipped (left right : Literal) (conflict : Conflict)
deriving DecidableEq

namespace Attempt

def resolvent? : Attempt → Option Resolvent
  | resolved r => some r
  | skipped _ _ _ => none

end Attempt

/-- The other literals of two clauses under a substitution. -/
def conclude (c d : Clause) (l m : Literal) (s : Substitution) : Clause :=
  .ofList (((c.without l).toList ++ (d.without m).toList).map (·.subst s))

def attempt (c d : Clause) (l m : Literal) : Attempt :=
  match unify l.term m.term with
  | .ok s => .resolved ⟨conclude c d l m s, l, m, s⟩
  | .error conflict => .skipped l m conflict

/-- All pairs of literals with different signs, the first clause's literals varying slowest. -/
def attempts (c d : Clause) : List Attempt :=
  c.toList.flatMap (fun l => (d.toList.filter l.isOpposite).map (attempt c d l))

end Resolution

def resolvents (c d : Clause) : List Resolvent :=
  (Resolution.attempts c d).filterMap Resolution.Attempt.resolvent?

@[simp] theorem Resolution.mem_conclude {c d : Clause} {l m k : Literal} {s : Substitution} :
    k ∈ Resolution.conclude c d l m s ↔
      ∃ j, ((j ∈ c ∧ j ≠ l) ∨ (j ∈ d ∧ j ≠ m)) ∧ j.subst s = k := by
  simp [Resolution.conclude, Clause.mem_toList, or_and_right, exists_or]

end Clausal
