import Clausal.Proofs.Searches
import Clausal.Proofs.Structures

/-!
# A proven query follows

In a structure in which the given clauses and the negated query are valid, so is every clause that a
search can come to hold. The empty clause never is.
-/

namespace Clausal

set_option autoImplicit false

universe u

open Saturation

theorem Saturation.Derivable.valid {M : Structure.{u}} {given : ClauseSet} {query : Literal}
    {h : Holding} (hh : Derivable given query h) (hgiven : ∀ c ∈ given, M.Valid c)
    (hquery : M.Valid (.unit query.complement)) : ∀ c ∈ h.clauses, M.Valid c := by
  refine hh.forall_mem ?_ fun _ hc hd hr => Structure.valid_of_mem_resolvents hr hc hd
  intro c hc
  rcases Holding.mem_start.mp hc with rfl | hc
  · exact hquery
  · exact hgiven c hc

/-- A proven query is satisfied by some assignment in every model of the given clauses, and by
every assignment if it is ground. -/
theorem entails_sound (p : Prover) (clock : Clock) (given : ClauseSet) (query : Literal)
    (proven : (p.entails clock given query).verdict = .proven) (M : Structure.{u})
    (model : ∀ c ∈ given, ∀ a : M.Assignment, M.Holds a c) :
    (∃ a, M.Satisfies a query) ∧ (query.isGround = true → ∀ a, M.Satisfies a query) := by
  have some_assignment : ∃ a, M.Satisfies a query := by
    have outcome := outcome_entails p clock given query
    generalize p.entails clock given query = answer at outcome proven
    cases outcome with
    | proven hh hempty =>
      by_cases h : ∃ a, M.Satisfies a query
      · exact h
      -- otherwise the negated query holds throughout, and with it the empty clause
      have hquery : M.Valid (.unit query.complement) := by
        rw [Structure.valid_unit]
        intro a
        rw [Structure.satisfies_complement]
        exact fun ha => h ⟨a, ha⟩
      exact absurd (hh.valid model hquery .empty hempty) Structure.not_valid_empty
    | disproven => cases proven
    | inconclusive => cases proven
  refine ⟨some_assignment, fun hground b => ?_⟩
  obtain ⟨a, ha⟩ := some_assignment
  exact Structure.satisfies_of_isGround hground ha

def pompeians : ClauseSet := .ofList
  [.unit ⟨true, .compound "Pompeyano" [.const "Marco"]⟩,
    .ofList [⟨false, .compound "Pompeyano" [.var "x"]⟩, ⟨true, .compound "Romano" [.var "x"]⟩]]

/-- Marco is the one true element, and predicates are true of what is true. -/
def onlyMarco : Structure where
  Carrier := Bool
  nonempty := ⟨true⟩
  constant n := n = "Marco"
  function _ bs := bs.headD false
  isTrue b := b = true

theorem onlyMarco_models_pompeians :
    ∀ c ∈ pompeians, ∀ a : onlyMarco.Assignment, onlyMarco.Holds a c := by
  intro c hc a
  simp only [pompeians, Roster.mem_ofList, List.mem_cons, List.not_mem_nil, or_false] at hc
  rcases hc with rfl | rfl
  · exact ⟨⟨true, .compound "Pompeyano" [.const "Marco"]⟩, by simp, iff_of_true rfl rfl⟩
  · cases hx : a "x" with
    | false =>
      refine ⟨⟨false, .compound "Pompeyano" [.var "x"]⟩, by simp, ?_⟩
      exact iff_of_false (fun h => Bool.false_ne_true (hx.symm.trans h)) Bool.false_ne_true
    | true => exact ⟨⟨true, .compound "Romano" [.var "x"]⟩, by simp, iff_of_true hx rfl⟩

theorem entails_sound_pompeians :
    (Prover.entails {} (fun _ => .zero) pompeians
      ⟨true, .compound "Romano" [.const "Marco"]⟩).verdict = .proven ∧
    (∀ c ∈ pompeians, ∀ a : onlyMarco.Assignment, onlyMarco.Holds a c) ∧
    ∀ a, onlyMarco.Satisfies a ⟨true, .compound "Romano" [.const "Marco"]⟩ := by
  refine ⟨?proven, onlyMarco_models_pompeians,
    (entails_sound _ _ _ _ ?proven onlyMarco onlyMarco_models_pompeians).2 rfl⟩
  rfl

end Clausal
