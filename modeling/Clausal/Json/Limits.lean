import Clausal.Limits
import Clausal.Json.Basic

/-!
# Durations and limits as JSON

A duration admits no fields but its own two; its nanoseconds fit in 32 bits and are carried into
the seconds, which have to stay within 64 bits.
-/

namespace Clausal

set_option autoImplicit false

namespace Duration

def toJson (d : Duration) : Json := .obj [("secs", .ofNat d.seconds), ("nanos", .ofNat d.nanos)]

/-- The object has no fields but those of a duration. -/
def hasOwnFieldsOnly : Json → Bool
  | .obj fields => fields.all (fun f => f.1 = "secs" || f.1 = "nanos")
  | _ => false

def ofJson? (j : Json) : Option Duration := do
  guard (hasOwnFieldsOnly j)
  let seconds ← j.required? "secs" Json.count?
  let nanos ← j.required? "nanos" (Json.natBelow? 0x100000000)
  let d := ofParts seconds nanos
  guard (d.seconds < Json.countBound)
  return d

end Duration

namespace Limits

def toJson (l : Limits) : Json := .obj [
  ("max_iterations", .ofNat l.rounds),
  ("max_clauses", .ofOption .ofNat l.clauses),
  ("timeout", .ofOption Duration.toJson l.time)]

/-- Every field may be missing and then has its default. -/
def ofJson? (j : Json) : Option Limits := do
  guard j.isObject
  let rounds ← j.defaulted? "max_iterations" ({} : Limits).rounds Json.count?
  let clauses ← j.optional? "max_clauses" Json.count?
  let time ← j.optional? "timeout" Duration.ofJson?
  return ⟨rounds, clauses, time⟩

end Limits

end Clausal
