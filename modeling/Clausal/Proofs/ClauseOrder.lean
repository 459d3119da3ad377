import Clausal.Proofs.Anchoring
import Clausal.Proofs.Soundness

/-!
# The order in which clauses are given

Where two variables meet, the one of the earlier clause is bound, so exchanging two clauses can
change which variable a resolvent keeps: one order of the same clauses can be refuted and another
saturated.
-/

namespace Clausal

set_option autoImplicit false

open Saturation

/-- The clauses that resolution derives when either of two clauses may come first. -/
inductive Derived (given : ClauseSet) (query : Literal) : Clause → Prop where
  | start {c : Clause} : c ∈ (Holding.start given query).clauses → Derived given query c
  | resolve {c d : Clause} {r : Resolvent} : Derived given query c → Derived given query d →
    r ∈ resolvents c d → Derived given query r.conclusion

/-- The clauses conclude something that they do not conclude the other way round. -/
def OneWay (c d : Clause) : Prop :=
  ∃ r ∈ resolvents c d, ∀ r' ∈ resolvents d c, r'.conclusion ≠ r.conclusion

/-- What it takes for the order of the given clauses to decide between two answers. -/
structure OrderSensitive (given : ClauseSet) (query : Literal) : Prop where
  oneWay : ∃ c d, Derived given query c ∧ Derived given query d ∧ OneWay c d
  unanchored : (∀ c ∈ (Holding.start given query).clauses, ∀ l ∈ c,
      l.term.aritiesMatch = true) →
    ∀ sign, ∃ c ∈ (Holding.start given query).clauses, ¬ c.Anchored sign

namespace Saturation

/-- What one way of resolving two held clauses concludes is held, whichever arrived first. -/
theorem Saturated.conclusion_mem_of_not_oneWay {held : ClauseSet} (h : Saturated held)
    {c d : Clause} (hc : c ∈ held) (hd : d ∈ held) (hne : c ≠ d) (hboth : ¬ OneWay c d)
    {r : Resolvent} (hr : r ∈ resolvents c d) : r.conclusion ∈ held := by
  rcases h.conclusion_mem_or hc hd hne with hcd | hdc
  · exact hcd r hr
  · have hswapped : ∃ r' ∈ resolvents d c, r'.conclusion = r.conclusion := by
      by_contra hnone
      exact hboth ⟨r, hr, fun r' hr' heq => hnone ⟨r', hr', heq⟩⟩
    obtain ⟨r', hr', heq⟩ := hswapped
    rw [← heq]
    exact hdc r' hr'

variable {given given' : ClauseSet} {query : Literal} {h h' : Holding}

theorem mem_start_iff_of_same (same : ∀ c, c ∈ given ↔ c ∈ given') {c : Clause} :
    c ∈ (Holding.start given query).clauses ↔ c ∈ (Holding.start given' query).clauses := by
  rw [Holding.mem_start, Holding.mem_start, same c]

/-- If one order leads to the empty clause and another to a saturated set without it, some
derived clauses conclude something one way only. -/
theorem exists_oneWay (same : ∀ c, c ∈ given ↔ c ∈ given') (hh : Derivable given query h)
    (hempty : .empty ∈ h.clauses) (hh' : Derivable given' query h')
    (hempty' : ¬ .empty ∈ h'.clauses) (hsaturated : Saturated h'.clauses) :
    ∃ c d, Derived given query c ∧ Derived given query d ∧ OneWay c d := by
  by_contra hnone
  have hheld : ∀ c ∈ h.clauses, Derived given query c ∧ c ∈ h'.clauses := by
    refine hh.forall_mem ?_ ?_
    · intro c hc
      exact ⟨.start hc, hh'.mem_of_mem_start ((mem_start_iff_of_same same).mp hc)⟩
    · intro c d r hne hc hd hr
      have hboth : ¬ OneWay c d := fun hone => hnone ⟨c, d, hc.1, hd.1, hone⟩
      exact ⟨.resolve hc.1 hd.1 hr,
        hsaturated.conclusion_mem_of_not_oneWay hc.2 hd.2 hne hboth hr⟩
  exact hempty' (hheld .empty hempty).2

theorem exists_not_anchored (same : ∀ c, c ∈ given ↔ c ∈ given') (hh : Derivable given query h)
    (hempty : .empty ∈ h.clauses) (hh' : Derivable given' query h')
    (hempty' : ¬ .empty ∈ h'.clauses) (hsaturated : Saturated h'.clauses)
    (harities : ∀ c ∈ (Holding.start given query).clauses, ∀ l ∈ c, l.term.aritiesMatch = true)
    (sign : Bool) : ∃ c ∈ (Holding.start given query).clauses, ¬ c.Anchored sign := by
  by_contra hnone
  have hanchored : ∀ c ∈ (Holding.start given query).clauses, c.Anchored sign := by
    intro c hc
    by_contra hc'
    exact hnone ⟨c, hc, hc'⟩
  obtain ⟨M, hM⟩ := hh'.exists_model hempty' hsaturated
    (fun c hc => hanchored c ((mem_start_iff_of_same same).mpr hc))
    (fun c hc => harities c ((mem_start_iff_of_same same).mpr hc))
  have hvalid : ∀ c ∈ (Holding.start given query).clauses, M.Valid c := by
    intro c hc
    exact hM c ((mem_start_iff_of_same same).mp hc)
  have hheld := hh.valid (fun c hc => hvalid c (Holding.mem_start.mpr (Or.inr hc)))
    (hvalid _ (Holding.mem_start.mpr (Or.inl rfl)))
  exact Structure.not_valid_empty (hheld .empty hempty)

end Saturation

/-- Two orders of the same clauses are answered proven and disproven only if resolution derives
clauses that conclude something in one order alone and, where symbols declare the arguments they
have, the clauses are anchored for neither sign. -/
theorem orderSensitive_of_conflicting_verdicts {p p' : Prover} {clock clock' : Clock}
    {given given' : ClauseSet} {query : Literal} (same : ∀ c, c ∈ given ↔ c ∈ given')
    (proven : (p.entails clock given query).verdict = .proven)
    (disproven : (p'.entails clock' given' query).verdict = .disproven) :
    OrderSensitive given query := by
  have outcome := outcome_entails p clock given query
  have outcome' := outcome_entails p' clock' given' query
  generalize p.entails clock given query = answer at outcome proven
  generalize p'.entails clock' given' query = answer' at outcome' disproven
  cases outcome with
  | disproven => cases proven
  | inconclusive => cases proven
  | proven hh hempty =>
    cases outcome' with
    | proven => cases disproven
    | inconclusive => cases disproven
    | disproven hh' hempty' hsaturated _ =>
      exact ⟨exists_oneWay same hh hempty hh' hempty' hsaturated,
        exists_not_anchored same hh hempty hh' hempty' hsaturated⟩

section Example

def noneIsQ : Clause := .unit ⟨false, .compound "Q" [.var "y"]⟩

def allArePOrQ : Clause :=
  .ofList [⟨true, .compound "P" [.var "x"]⟩, ⟨true, .compound "Q" [.var "x"]⟩]

/-- The query `P(f(y))`. With `¬Q(y)` first the resolvent is `P(x)`, which refutes the negated
query; with `¬Q(y)` last it is `P(y)`, and `y` occurs in `f(y)`. -/
def imageIsP : Literal := ⟨true, .compound "P" [.compound "f" [.var "y"]]⟩

theorem mem_either_order (c : Clause) :
    c ∈ Roster.ofList [noneIsQ, allArePOrQ] ↔ c ∈ Roster.ofList [allArePOrQ, noneIsQ] := by
  simp only [Roster.mem_ofList, List.mem_cons, List.not_mem_nil, or_false]
  exact or_comm

theorem orderSensitive_noneIsQ_allArePOrQ :
    (∀ c, c ∈ Roster.ofList [noneIsQ, allArePOrQ] ↔
      c ∈ Roster.ofList [allArePOrQ, noneIsQ]) ∧
    (Prover.entails {} (fun _ => .zero) (.ofList [noneIsQ, allArePOrQ]) imageIsP).verdict =
      .proven ∧
    (Prover.entails {} (fun _ => .zero) (.ofList [allArePOrQ, noneIsQ]) imageIsP).verdict =
      .disproven ∧
    OrderSensitive (.ofList [noneIsQ, allArePOrQ]) imageIsP := by
  refine ⟨mem_either_order, ?proven, ?disproven,
    orderSensitive_of_conflicting_verdicts mem_either_order ?proven ?disproven⟩
  · rfl
  · rfl

/-- The order of the clauses can decide the answer. -/
theorem exists_conflicting_verdicts :
    ¬ ∀ (p : Prover) (clock : Clock) (given given' : ClauseSet) (query : Literal),
      p.limits.time = none → p.cancelled = false → (∀ c, c ∈ given ↔ c ∈ given') →
      ¬ ((p.entails clock given query).verdict = .proven ∧
        (p.entails clock given' query).verdict = .disproven) := by
  intro h
  exact h {} (fun _ => .zero) (.ofList [noneIsQ, allArePOrQ]) (.ofList [allArePOrQ, noneIsQ])
    imageIsP rfl rfl mem_either_order ⟨rfl, rfl⟩

end Example

end Clausal
