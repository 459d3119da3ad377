import Clausal.Event

/-!
# One round of saturation

A round resolves every two clauses held, the one that arrived earlier on the left. It ends at once
when the empty clause turns up; otherwise it yields the conclusions that are not held yet, each
with the origin it was first found with.
-/

namespace Clausal.Saturation

set_option autoImplicit false

/-- What a round has found so far. -/
structure Sweep where
  /-- Conclusions that are not held, in the order found. -/
  fresh : List (Clause × Origin) := []
  resolutions : Nat := 0
  journal : Array Event := #[]
deriving DecidableEq

/-- The clauses that resolved to the empty clause, and what the round had found by then. -/
structure Hit where
  left : Nat
  right : Nat
  sweep : Sweep
deriving DecidableEq

namespace Sweep

/-- Keeps the first origin of a conclusion. -/
def record (fresh : List (Clause × Origin)) (c : Clause) (o : Origin) : List (Clause × Origin) :=
  if fresh.any (fun f => f.1 = c) then fresh else fresh ++ [(c, o)]

/-- Looks at one resolvent of the clauses at indices `i` and `j`. -/
def consider (held : ClauseSet) (left : Clause × Nat) (right : Clause × Nat) (w : Sweep)
    (r : Resolvent) : Except Hit Sweep :=
  let (i, j) := (left.2, right.2)
  if r.conclusion.isEmpty then
    .error ⟨i, j, { w with
      resolutions := w.resolutions + 1
      journal := w.journal.push (.refuted i left.1 j right.1 r.unifier) }⟩
  else if r.conclusion ∈ held then .ok { w with resolutions := w.resolutions + 1 }
  else
    .ok {
      fresh := record w.fresh r.conclusion (.resolved i j)
      resolutions := w.resolutions + 1
      journal := w.journal.push (.inferred i j r.conclusion) }

/-- Resolves two clauses: the pairs that do not unify are noted first. -/
def resolve (held : ClauseSet) (w : Sweep) (pair : (Clause × Nat) × (Clause × Nat)) :
    Except Hit Sweep :=
  let attempts := Resolution.attempts pair.1.1 pair.2.1
  (attempts.filterMap Resolution.Attempt.resolvent?).foldlM (consider held pair.1 pair.2)
    { w with journal := w.journal.appendList (Event.ofAttempts attempts) }

end Sweep

/-- All pairs of values of a list, the earlier value first, in the order of the list. -/
def pairs {α : Type} : List α → List (α × α)
  | [] => []
  | a :: as => as.map (Prod.mk a) ++ pairs as

def sweep (held : ClauseSet) : Except Hit Sweep :=
  (pairs held.toList.zipIdx).foldlM (Sweep.resolve held) {}

end Clausal.Saturation
