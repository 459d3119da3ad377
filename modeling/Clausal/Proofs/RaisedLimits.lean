import Clausal.Proofs.Searches

/-!
# Raising the limits of a search

Limits are looked at between rounds only, and higher ones pass wherever lower ones do. So the rounds
of a search are rounds under higher limits too.
-/

namespace Clausal

set_option autoImplicit false

/-- Each limit is at most the other one; to have no limit on clauses is to have the highest. -/
structure Limits.AtMost (l l' : Limits) : Prop where
  rounds : l.rounds ≤ l'.rounds
  clauses : ∀ bound', l'.clauses = some bound' → ∃ bound, l.clauses = some bound ∧ bound ≤ bound'

namespace Saturation

section Raise

variable {limits limits' : Limits} {cancelled : Bool} {clock clock' : Clock} {s t : State}
  (hlimits : limits.AtMost limits') (huntimed : limits'.time = none)
include hlimits

theorem overfull_raise {h : Holding} (hroom : overfull limits h = false) :
    overfull limits' h = false := by
  rw [Bool.eq_false_iff] at *
  intro hfull
  obtain ⟨bound', hbound', hlt⟩ := overfull_iff.mp hfull
  obtain ⟨bound, hbound, hle⟩ := hlimits.clauses bound' hbound'
  exact hroom (overfull_iff.mpr ⟨bound, hbound, by omega⟩)

include huntimed

theorem Starts.raise (h : Starts limits cancelled clock s) : Starts limits' false clock' s :=
  ⟨Nat.lt_of_lt_of_le h.1 hlimits.rounds, interruption_eq_none huntimed _⟩

theorem Advance.raise (h : Advance limits cancelled clock s t) :
    Advance limits' false clock' s t := by
  cases h with
  | mk hstarts hw hfresh hroom =>
    exact .mk (hstarts.raise hlimits huntimed) hw hfresh (overfull_raise hlimits hroom)

theorem Ends.raise {report : Report} (h : Ends limits cancelled clock s report)
    (hconclusive : report.answer.verdict ≠ .inconclusive) :
    Ends limits' false clock' s report := by
  cases h with
  | spent _ => exact absurd rfl hconclusive
  | interrupted _ _ => exact absurd rfl hconclusive
  | refuted hstarts hw => exact .refuted (hstarts.raise hlimits huntimed) hw
  | saturated hstarts hw hfresh => exact .saturated (hstarts.raise hlimits huntimed) hw hfresh
  | overfull _ _ _ _ => exact absurd rfl hconclusive

/-- A search that came to a conclusion takes the same course under higher limits. -/
theorem search_raise {given : ClauseSet} {query : Literal}
    (hconclusive :
      (search limits cancelled clock given query).answer.verdict ≠ .inconclusive) :
    search limits' false clock' given query = search limits cancelled clock given query := by
  rcases search_cases limits cancelled clock given query with ⟨hempty, heq⟩ | ⟨hempty, t, ht, hends⟩
  · rw [heq]
    unfold search
    exact if_pos hempty
  · have ht' : Relation.ReflTransGen (Advance limits' false clock') (.initial given query) t :=
      Relation.ReflTransGen.mono (fun _ _ hstep => Advance.raise hlimits huntimed hstep) _ _ ht
    exact search_of_advances hempty ht' (hends.raise hlimits huntimed hconclusive)

end Raise

end Saturation

open Saturation

/-- Where one prover comes to a conclusion, a prover with higher limits, which is not stopped by
time or cancelled, gives the identical answer. -/
theorem entails_eq_of_raised_limits (p p' : Prover) (clock clock' : Clock) (given : ClauseSet)
    (query : Literal) (raised : p.limits.AtMost p'.limits) (untimed : p'.limits.time = none)
    (running : p'.cancelled = false)
    (conclusive : (p.entails clock given query).verdict ≠ .inconclusive) :
    p'.entails clock' given query = p.entails clock given query := by
  unfold Prover.entails Prover.ask at *
  rw [running, search_raise raised untimed conclusive]

def rainMakesWet : ClauseSet := .ofList
  [.unit ⟨true, .const "Rain"⟩, .ofList [⟨false, .const "Rain"⟩, ⟨true, .const "Wet"⟩]]

/-- Two rounds and five clauses are just enough. -/
theorem entails_eq_of_raised_limits_rainMakesWet :
    (Prover.entails ⟨⟨2, some 5, none⟩, false⟩ (fun _ => .zero) rainMakesWet
      ⟨true, .const "Wet"⟩).verdict = .proven ∧
    Prover.entails {} (fun _ => .zero) rainMakesWet ⟨true, .const "Wet"⟩ =
      Prover.entails ⟨⟨2, some 5, none⟩, false⟩ (fun _ => .zero) rainMakesWet
        ⟨true, .const "Wet"⟩ := by
  have proven : (Prover.entails ⟨⟨2, some 5, none⟩, false⟩ (fun _ => .zero) rainMakesWet
      ⟨true, .const "Wet"⟩).verdict = .proven := rfl
  have raised : Limits.AtMost ⟨2, some 5, none⟩ {} :=
    ⟨by decide, fun bound' hbound' => nomatch hbound'⟩
  refine ⟨proven, entails_eq_of_raised_limits _ _ _ _ _ _ raised rfl rfl ?_⟩
  rw [proven]
  decide

end Clausal
