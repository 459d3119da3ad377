import Clausal.Refutation

/-!
# Answers

What a search reports: its verdict, what it counted, the limit that stopped it if one did, and a
refutation if the query is proven.
-/

namespace Clausal

set_option autoImplicit false

inductive Verdict where
  /-- The clauses contradict the negated query. -/
  | proven
  /-- No further clause follows, and no contradiction was found. -/
  | disproven
  /-- A limit ended the search. -/
  | inconclusive
deriving DecidableEq

namespace Verdict

def text : Verdict → String
  | proven => "proven"
  | disproven => "disproven"
  | inconclusive => "inconclusive"

end Verdict

/-- What made a search inconclusive. -/
inductive Cutoff where
  | rounds
  | clauses
  | time
  | cancelled
deriving DecidableEq

namespace Cutoff

def text : Cutoff → String
  | rounds => "iteration limit reached"
  | clauses => "clause limit reached"
  | time => "timeout"
  | cancelled => "cancelled"

end Cutoff

/-- What was counted during a search. -/
structure Tally where
  /-- Rounds started. -/
  rounds : Nat := 0
  /-- Resolvents built, repeated ones included. -/
  resolutions : Nat := 0
  /-- New clauses taken in at the end of rounds. -/
  generated : Nat := 0
  /-- Clauses held at the end. -/
  clauses : Nat := 0
  cutoff : Option Cutoff := none
deriving DecidableEq

structure Answer where
  verdict : Verdict
  tally : Tally
  refutation : Option Refutation
deriving DecidableEq

namespace Answer

def isProven (a : Answer) : Bool := a.verdict = .proven

end Answer

end Clausal
