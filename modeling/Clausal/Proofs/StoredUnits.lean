import Clausal.Proofs.Lifting
import Clausal.Proofs.MoreKnowledge

/-!
# Stored units

A literal that is stored as a clause of its own is resolved with the negated query in the first
round, whichever of them comes first, and nothing else that is stored can prevent this.
-/

namespace Clausal

set_option autoImplicit false

theorem Resolution.conclude_units (l m : Literal) (s : Substitution) :
    conclude (.unit l) (.unit m) l m s = .empty := by
  apply Clause.eq_of_mem_iff
  intro k
  simp

namespace Saturation

/-- Two held units of different signs that a substitution makes about one atom are refuted in the
next round. -/
theorem concludes_empty_of_units {held : ClauseSet} {l m : Literal} {r : Substitution}
    (hl : .unit l ∈ held) (hm : .unit m ∈ held) (hsign : l.isOpposite m = true)
    (hr : l.term.subst r = m.term.subst r) : Concludes held .empty := by
  have hne : Clause.unit l ≠ .unit m := by
    intro h
    obtain rfl : l = m := Clause.mem_unit.mp (h ▸ Clause.mem_unit.mpr rfl)
    exact Literal.isOpposite_iff.mp hsign rfl
  have hself (k : Literal) : k ∈ Clause.unit k := Clause.mem_unit.mpr rfl
  -- only one order of the two is tried, and we do not know which
  rcases concludes_or hl hm hne with hlm | hml
  · obtain ⟨s, -, hmem⟩ := exists_mem_resolvents_of_subst_eq (hself l) (hself m) hsign hr
    rw [← Resolution.conclude_units l m s]
    exact hlm _ hmem
  · rw [Literal.isOpposite_comm] at hsign
    obtain ⟨s, -, hmem⟩ := exists_mem_resolvents_of_subst_eq (hself m) (hself l) hsign hr.symm
    rw [← Resolution.conclude_units m l s]
    exact hml _ hmem

end Saturation

open Saturation

/-- A query that some substitution makes equal to a stored literal is proven in one round at most,
whatever else is stored and however few clauses are allowed. -/
theorem entails_of_stored_unit (p : Prover) (clock : Clock) (given : ClauseSet) (l query : Literal)
    (r : Substitution) (stored : .unit l ∈ given) (sign : l.positive = query.positive)
    (unified : l.term.subst r = query.term.subst r) (allowed : 1 ≤ p.limits.rounds)
    (untimed : p.limits.time = none) (running : p.cancelled = false) :
    (p.entails clock given query).verdict = .proven ∧
      (p.entails clock given query).tally.rounds ≤ 1 := by
  unfold Prover.entails Prover.ask
  rw [running]
  have hproven : ProvenWithin p.limits clock given query 1 := by
    by_cases hempty : .empty ∈ (Holding.start given query).clauses
    · exact provenWithin_of_empty_mem hempty 1
    · have hstarts : Starts p.limits false clock (.initial given query) :=
        ⟨allowed, interruption_eq_none untimed _⟩
      have hsign : l.isOpposite query.complement = true := by
        rw [Literal.isOpposite_iff, sign]
        exact Literal.isOpposite_iff.mp (Literal.isOpposite_complement query)
      have hconcludes : Concludes (Holding.start given query).clauses .empty :=
        concludes_empty_of_units (Holding.mem_start.mpr (Or.inr stored))
          (Holding.mem_start.mpr (Or.inl rfl)) hsign unified
      exact provenWithin_of_concludes hempty .refl hstarts hconcludes
  exact ⟨hproven.verdict, hproven.rounds⟩

section Example

def greetsHost : Literal := ⟨true, .compound "Greets" [.var "x", .compound "host" [.var "x"]]⟩

def annGreets : Literal := ⟨true, .compound "Greets" [.const "Ann", .var "y"]⟩

/-- The negated query is stored too, in front of the literal that refutes it, and so is a
contradiction. -/
def reception : ClauseSet := .ofList
  [.unit annGreets.complement, .ofList [⟨false, .const "Late"⟩, ⟨true, .const "Dark"⟩],
    .unit ⟨true, .const "Late"⟩, .unit ⟨false, .const "Dark"⟩, .unit greetsHost]

def annAndHost : Substitution :=
  (Substitution.single "x" (.const "Ann")).insert "y" (.compound "host" [.const "Ann"])

/-- One round is enough although no clause is allowed. -/
theorem entails_of_stored_unit_reception :
    .unit greetsHost ∈ reception ∧
    greetsHost.term.subst annAndHost = annGreets.term.subst annAndHost ∧
    (Prover.entails ⟨⟨1, some 0, none⟩, false⟩ (fun _ => .zero) reception annGreets).verdict =
      .proven ∧
    (Prover.entails ⟨⟨1, some 0, none⟩, false⟩ (fun _ => .zero) reception
      annGreets).tally.rounds ≤ 1 := by
  have stored : .unit greetsHost ∈ reception := by decide
  have unified : greetsHost.term.subst annAndHost = annGreets.term.subst annAndHost := rfl
  exact ⟨stored, unified, entails_of_stored_unit ⟨⟨1, some 0, none⟩, false⟩ (fun _ => .zero)
    reception greetsHost annGreets annAndHost stored rfl unified (Nat.le_refl 1) rfl rfl⟩

end Example

end Clausal
