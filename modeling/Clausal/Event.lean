import Clausal.Answer
import Clausal.Resolution

/-!
# Events

What is worth noting while knowledge is converted and a search runs, each with a level and a
wording.
-/

namespace Clausal

set_option autoImplicit false

/-- How much detail an event belongs to. -/
inductive Level where
  | trace
  | debug
  | info
deriving DecidableEq

namespace Level

def text : Level → String
  | trace => "TRACE"
  | debug => "DEBUG"
  | info => "INFO"

end Level

/-- Something that happened during a conversion or a search. -/
inductive Event where
  /-- A knowledge base was turned into clauses. -/
  | converted (entries clauses : Nat)
  /-- Two literals of different signs do not unify. -/
  | skipped (left right : Literal) (conflict : Conflict)
  /-- The empty clause was there from the start. -/
  | contradictory (query : Literal)
  /-- Two clauses resolved to the empty clause. -/
  | refuted (i : Nat) (left : Clause) (j : Nat) (right : Clause) (unifier : Substitution)
  /-- Two clauses resolved to a clause that is not held. -/
  | inferred (i j : Nat) (conclusion : Clause)
  | roundEnded (round clauses fresh : Nat)
  | finished (verdict : Verdict) (tally : Tally)
deriving DecidableEq

namespace Event

def level : Event → Level
  | converted _ _ => .debug
  | skipped _ _ _ => .trace
  | contradictory _ => .info
  | refuted _ _ _ _ _ => .debug
  | inferred _ _ _ => .trace
  | roundEnded _ _ _ => .debug
  | finished _ _ => .info

def message : Event → String
  | converted entries clauses =>
    "converted knowledge base (" ++ entries.repr ++ " entries) into " ++ clauses.repr ++ " clauses"
  | skipped left right conflict =>
    "skip " ++ left.text ++ " / " ++ right.text ++ ": " ++ conflict.message
  | contradictory query => query.text ++ ": input already contains the empty clause"
  | refuted i left j right unifier =>
    "empty clause from [" ++ i.repr ++ "] " ++ left.text ++ " and [" ++ j.repr ++ "] " ++
      right.text ++ " with " ++ unifier.text
  | inferred i j conclusion =>
    "[" ++ i.repr ++ "] × [" ++ j.repr ++ "] ⊢ " ++ conclusion.text
  | roundEnded round clauses fresh =>
    "iteration " ++ round.repr ++ ": " ++ clauses.repr ++ " clauses, " ++ fresh.repr ++ " new"
  | finished verdict tally =>
    let cause := match tally.cutoff with
      | some cutoff => cutoff.text
      | none => tally.resolutions.repr ++ " resolutions"
    verdict.text ++ " after " ++ tally.rounds.repr ++ " iterations (" ++ cause ++ ", " ++
      tally.clauses.repr ++ " clauses)"

def line (e : Event) : String := e.level.text ++ " " ++ e.message

/-- The pairs of literals that did not unify. -/
def ofAttempts (attempts : List Resolution.Attempt) : List Event :=
  attempts.filterMap (fun a =>
    match a with
    | .resolved _ => none
    | .skipped left right conflict => some (.skipped left right conflict))

end Event

end Clausal
