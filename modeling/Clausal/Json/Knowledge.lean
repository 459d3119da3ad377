import Clausal.KnowledgeBase
import Clausal.Json.Basic

/-!
# Rules and knowledge bases as JSON

Repeated entries are dropped on reading and the first one stays. The literals of a stored clause
are taken as they are written.
-/

namespace Clausal

set_option autoImplicit false

namespace Rule

def toJson (r : Rule) : Json :=
  .obj [("premises", .strings r.premises.toList), ("conclusion", .str r.conclusion)]

def ofJson? (j : Json) : Option Rule := do
  let premises ← j.required? "premises" (Json.list? Json.str?)
  let conclusion ← j.required? "conclusion" Json.str?
  return .ofList premises conclusion

end Rule

namespace KnowledgeBase

def toJson (k : KnowledgeBase) : Json := .obj [
  ("facts", .strings k.facts.toList),
  ("rules", .ofList Rule.toJson k.rules.toList),
  ("raw_clauses", .ofList Json.strings k.clauses.toList)]

/-- Every field may be missing. -/
def ofJson? (j : Json) : Option KnowledgeBase := do
  guard j.isObject
  let facts ← j.defaulted? "facts" [] (Json.list? Json.str?)
  let rules ← j.defaulted? "rules" [] (Json.list? Rule.ofJson?)
  let clauses ← j.defaulted? "raw_clauses" [] (Json.list? (Json.list? Json.str?))
  return ⟨.ofList facts, .ofList rules, .ofList clauses⟩

end KnowledgeBase

end Clausal
