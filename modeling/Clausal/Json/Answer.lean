import Clausal.Answer
import Clausal.Json.Logic

/-!
# Refutations and answers as JSON
-/

namespace Clausal

set_option autoImplicit false

namespace Verdict

def toJson : Verdict → Json
  | proven => .str "Proven"
  | disproven => .str "Disproven"
  | inconclusive => .str "Inconclusive"

def ofJson? (j : Json) : Option Verdict :=
  match j.tag? with
  | some "Proven" => some proven
  | some "Disproven" => some disproven
  | some "Inconclusive" => some inconclusive
  | _ => none

end Verdict

namespace Cutoff

def toJson : Cutoff → Json
  | rounds => .str "Iterations"
  | clauses => .str "Clauses"
  | time => .str "Timeout"
  | cancelled => .str "Cancelled"

def ofJson? (j : Json) : Option Cutoff :=
  match j.tag? with
  | some "Iterations" => some rounds
  | some "Clauses" => some clauses
  | some "Timeout" => some time
  | some "Cancelled" => some cancelled
  | _ => none

end Cutoff

namespace Tally

def toJson (t : Tally) : Json := .obj [
  ("iterations", .ofNat t.rounds),
  ("resolutions", .ofNat t.resolutions),
  ("clauses_generated", .ofNat t.generated),
  ("final_clause_count", .ofNat t.clauses),
  ("limit", .ofOption Cutoff.toJson t.cutoff)]

def ofJson? (j : Json) : Option Tally := do
  let rounds ← j.required? "iterations" Json.count?
  let resolutions ← j.required? "resolutions" Json.count?
  let generated ← j.required? "clauses_generated" Json.count?
  let clauses ← j.required? "final_clause_count" Json.count?
  let cutoff ← j.optional? "limit" Cutoff.ofJson?
  return ⟨rounds, resolutions, generated, clauses, cutoff⟩

end Tally

namespace Origin

def toJson : Origin → Json
  | given => .str "Input"
  | negatedQuery => .str "NegatedQuery"
  | resolved left right =>
    .obj [("Resolution", .obj [("left", .ofNat left), ("right", .ofNat right)])]

def ofJson? : Json → Option Origin
  | .obj [("Resolution", j)] => do
    let left ← j.required? "left" Json.count?
    let right ← j.required? "right" Json.count?
    return resolved left right
  | j =>
    match j.tag? with
    | some "Input" => some given
    | some "NegatedQuery" => some negatedQuery
    | _ => none

end Origin

namespace Step

def toJson (s : Step) : Json := .obj [
  ("clause_idx", .ofNat s.index),
  ("derivation", s.origin.toJson),
  ("conclusion", s.conclusion.toJson)]

def ofJson? (j : Json) : Option Step := do
  let index ← j.required? "clause_idx" Json.count?
  let origin ← j.required? "derivation" Origin.ofJson?
  let conclusion ← j.required? "conclusion" Clause.ofJson?
  return ⟨index, origin, conclusion⟩

end Step

namespace Refutation

def toJson (r : Refutation) : Json := .obj [
  ("steps", .ofList Step.toJson r.steps),
  ("empty_clause_idx", .ofNat r.root)]

def ofJson? (j : Json) : Option Refutation := do
  let steps ← j.required? "steps" (Json.list? Step.ofJson?)
  let root ← j.required? "empty_clause_idx" Json.count?
  return ⟨steps, root⟩

end Refutation

namespace Answer

def toJson (a : Answer) : Json := .obj [
  ("verdict", a.verdict.toJson),
  ("stats", a.tally.toJson),
  ("proof", .ofOption Refutation.toJson a.refutation)]

def ofJson? (j : Json) : Option Answer := do
  let verdict ← j.required? "verdict" Verdict.ofJson?
  let tally ← j.required? "stats" Tally.ofJson?
  let refutation ← j.optional? "proof" Refutation.ofJson?
  return ⟨verdict, tally, refutation⟩

end Answer

end Clausal
