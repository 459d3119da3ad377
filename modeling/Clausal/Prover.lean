import Clausal.KnowledgeBase
import Clausal.Saturation.Search

/-!
# Provers

A prover asks whether clauses entail a literal under fixed limits. While it is cancelled no query
starts a round; what can be answered without one still is.
-/

namespace Clausal

set_option autoImplicit false

/-- Limits for queries, and whether rounds are to be kept from starting. -/
structure Prover where
  limits : Limits := {}
  cancelled : Bool := false
deriving DecidableEq

namespace Prover

instance : Inhabited Prover := ⟨{}⟩

def setCancelled (p : Prover) (cancelled : Bool) : Prover := { p with cancelled := cancelled }

/-- Keeps rounds from starting from now on. -/
def cancel (p : Prover) : Prover := p.setCancelled true

def resume (p : Prover) : Prover := p.setCancelled false

def ask (p : Prover) (clock : Saturation.Clock) (given : ClauseSet) (query : Literal) :
    Saturation.Report :=
  Saturation.search p.limits p.cancelled clock given query

def entails (p : Prover) (clock : Saturation.Clock) (given : ClauseSet) (query : Literal) :
    Answer :=
  (p.ask clock given query).answer

def askText (p : Prover) (clock : Saturation.Clock) (given : ClauseSet) (query : String) :
    Except Text.Fault Saturation.Report := do
  return p.ask clock given (← Literal.parse query)

end Prover

namespace KnowledgeBase

/-- The clauses of a knowledge base and the note that they were made. -/
def convert (k : KnowledgeBase) : Except Text.Fault (ClauseSet × Event) := do
  let clauses ← k.toClauses
  return (clauses, .converted k.size clauses.size)

end KnowledgeBase

end Clausal
