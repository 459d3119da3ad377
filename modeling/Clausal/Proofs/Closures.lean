import Clausal.Proofs.Certificates

/-!
# What a disproven query leaves behind

A search that ends without a contradiction holds clauses to which no round can add: the given ones
and the negated query, and clauses that each rest on two before it.
-/

namespace Clausal

set_option autoImplicit false

open Saturation

/-- A list of clauses that begins with the given ones and the negated query, has no contradiction,
and holds what its clauses conclude and nothing else. -/
structure Closure (given : ClauseSet) (query : Literal) (clauses : List Clause) : Prop where
  nodup : clauses.Nodup
  start : (if .unit query.complement ∈ given then given.toList
    else given.toList ++ [.unit query.complement]) <+: clauses
  consistent : ¬ .empty ∈ clauses
  closed : ∀ (i j : Nat) (c d : Clause), i < j → clauses[i]? = some c →
    clauses[j]? = some d → ∀ r ∈ resolvents c d, r.conclusion ∈ clauses
  derived : ∀ (k : Nat) (c : Clause), clauses[k]? = some c →
    c ∈ given ∨ c = .unit query.complement ∨ ∃ i j a b, i < j ∧ j < k ∧
      clauses[i]? = some a ∧ clauses[j]? = some b ∧ ∃ r ∈ resolvents a b, r.conclusion = c

namespace Saturation

variable {given : ClauseSet} {query : Literal} {h : Holding}

theorem toList_start (given : ClauseSet) (query : Literal) :
    (Holding.start given query).clauses.toList =
      if .unit query.complement ∈ given then given.toList
      else given.toList ++ [.unit query.complement] :=
  Holding.toList_insert _ _ _

/-- What is taken in stands behind what the search started with. -/
theorem Derivable.prefix_start (hh : Derivable given query h) :
    (Holding.start given query).clauses.toList <+: h.clauses.toList := by
  induction hh with
  | start => exact List.prefix_rfl
  | infer _ _ ih => exact ih.trans (Holding.prefix_insert _ _ _)

theorem Saturated.closed {held : ClauseSet} (hsaturated : Saturated held) {i j : Nat}
    {c d : Clause} (hij : i < j) (hc : held.toList[i]? = some c) (hd : held.toList[j]? = some d)
    {r : Resolvent} (hr : r ∈ resolvents c d) : r.conclusion ∈ held :=
  hsaturated ⟨(c, i), (d, j), r⟩ (mem_inferences_iff.mpr ⟨hij, hc, hd, hr⟩)

/-- A held clause is one that the search started with, or is resolved from two before it. -/
theorem Holding.Justified.derived (hh : h.Justified given query) {k : Nat} {c : Clause}
    (hc : h.clauses.toList[k]? = some c) : c ∈ given ∨ c = .unit query.complement ∨
      ∃ i j a b, i < j ∧ j < k ∧ h.clauses.toList[i]? = some a ∧ h.clauses.toList[j]? = some b ∧
        ∃ r ∈ resolvents a b, r.conclusion = c := by
  have hk : k < h.origins.length := by
    rw [h.aligned]
    exact (List.getElem?_eq_some_iff.mp hc).1
  obtain ⟨o, ho⟩ : ∃ o, h.origins[k]? = some o := ⟨_, List.getElem?_eq_getElem hk⟩
  have hjustifies := hh k c o hc ho
  cases o with
  | given => exact Or.inl (List.mem_of_getElem? hjustifies)
  | negatedQuery => exact Or.inr (Or.inl hjustifies)
  | resolved i j =>
    obtain ⟨hij, hjk, a, b, ha, hb, hr⟩ := hjustifies
    exact Or.inr (Or.inr ⟨i, j, a, b, hij, hjk, ha, hb, hr⟩)

theorem Derivable.closure (hh : Derivable given query h) (hempty : ¬ .empty ∈ h.clauses)
    (hsaturated : Saturated h.clauses) : Closure given query h.clauses.toList where
  nodup := h.clauses.nodup
  start := toList_start given query ▸ hh.prefix_start
  consistent := hempty
  closed _ _ _ _ hij hc hd _ hr := hsaturated.closed hij hc hd hr
  derived _ _ hc := hh.justified.derived hc

end Saturation

/-- A disproven query comes with a closure of the given clauses and the negated query that has as
many clauses as the answer reports. -/
theorem exists_closure_of_disproven (p : Prover) (clock : Clock) (given : ClauseSet)
    (query : Literal) (disproven : (p.entails clock given query).verdict = .disproven) :
    ∃ clauses : List Clause, clauses.length = (p.entails clock given query).tally.clauses ∧
      Closure given query clauses := by
  have outcome := outcome_entails p clock given query
  generalize p.entails clock given query = answer at outcome disproven ⊢
  cases outcome with
  | proven => cases disproven
  | inconclusive => cases disproven
  | @disproven h tally hh hempty hsaturated htally =>
    exact ⟨h.clauses.toList, htally.symm, hh.closure hempty hsaturated⟩

/-- Whoever is loved by a parent is happy, and Ann is loved by Bob's parent. -/
def lovedByParents : ClauseSet := .ofList
  [.ofList [⟨false, .compound "Loves" [.compound "parent" [.var "x"], .var "y"]⟩,
      ⟨true, .compound "Happy" [.var "y"]⟩],
    .unit ⟨true, .compound "Loves" [.compound "parent" [.const "Bob"], .const "Ann"]⟩]

/-- Asked whether Bob is happy, the search adds two clauses to its three and then no more. -/
theorem exists_closure_of_disproven_lovedByParents :
    (Prover.entails {} (fun _ => .zero) lovedByParents
      ⟨true, .compound "Happy" [.const "Bob"]⟩).verdict = .disproven ∧
    ∃ clauses : List Clause, clauses.length = 5 ∧
      Closure lovedByParents ⟨true, .compound "Happy" [.const "Bob"]⟩ clauses := by
  refine ⟨?disproven, exists_closure_of_disproven {} (fun _ => .zero) _ _ ?disproven⟩
  rfl

end Clausal
