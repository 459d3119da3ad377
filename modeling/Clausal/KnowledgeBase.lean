import Clausal.Clause
import Clausal.Text.Reader

/-!
# Knowledge bases

Facts, rules and clauses kept as texts, each kind without repetition and in order of arrival. The
texts are read only when the knowledge base is turned into clauses; the first text that cannot be
read is then reported.
-/

namespace Clausal

set_option autoImplicit false

/-- If all premises hold, so does the conclusion. -/
structure Rule where
  premises : SortedSet String
  conclusion : String
deriving DecidableEq

namespace Rule

def ofList (premises : List String) (conclusion : String) : Rule := ⟨.ofList premises, conclusion⟩

def text (r : Rule) : String := " ∧ ".intercalate r.premises.toList ++ " ⇒ " ++ r.conclusion

/-- The denied premises and the conclusion as one clause; premises are read in their order. -/
def toClause (r : Rule) : Except Text.Fault Clause := do
  let premises ← r.premises.toList.mapM Literal.parse
  let conclusion ← Literal.parse r.conclusion
  return .ofList (premises.map Literal.complement ++ [conclusion])

end Rule

/-- A text that may be added to a knowledge base. -/
inductive Entry where
  | fact (text : String)
  | rule (rule : Rule)
  | clause (literals : List String)
deriving DecidableEq

/-- Facts, rules and clauses as texts. -/
structure KnowledgeBase where
  facts : Roster String
  rules : Roster Rule
  clauses : Roster (List String)
deriving DecidableEq

namespace KnowledgeBase

def empty : KnowledgeBase := ⟨.empty, .empty, .empty⟩

instance : Inhabited KnowledgeBase := ⟨empty⟩

def size (k : KnowledgeBase) : Nat := k.facts.size + k.rules.size + k.clauses.size

def isEmpty (k : KnowledgeBase) : Bool := k.size = 0

/-- The literals of a clause as they are stored: a repeated text is left out. -/
def stored (literals : List String) : List String := (Roster.ofList literals).toList

def has (k : KnowledgeBase) : Entry → Bool
  | .fact text => text ∈ k.facts
  | .rule rule => rule ∈ k.rules
  | .clause literals => stored literals ∈ k.clauses

/-- Adds an entry unless it is there already. -/
def add (k : KnowledgeBase) : Entry → KnowledgeBase
  | .fact text => { k with facts := k.facts.insert text }
  | .rule rule => { k with rules := k.rules.insert rule }
  | .clause literals => { k with clauses := k.clauses.insert (stored literals) }

def addMany (k : KnowledgeBase) (entries : List Entry) : KnowledgeBase := entries.foldl add k

/-- A fact as a clause; it has to be ground. -/
def clauseOfFact (text : String) : Except Text.Fault Clause := do
  return .unit (← Literal.parseGround text)

def clauseOfTexts (literals : List String) : Except Text.Fault Clause := do
  return .ofList (← literals.mapM Literal.parse)

/-- One clause for each entry: facts, then rules, then clauses. -/
def toClauseList (k : KnowledgeBase) : Except Text.Fault (List Clause) := do
  let facts ← k.facts.toList.mapM clauseOfFact
  let rules ← k.rules.toList.mapM Rule.toClause
  let clauses ← k.clauses.toList.mapM clauseOfTexts
  return facts ++ rules ++ clauses

def toClauses (k : KnowledgeBase) : Except Text.Fault ClauseSet := do
  return .ofList (← k.toClauseList)

end KnowledgeBase

end Clausal
