import Clausal.Proofs.Resolvents
import Clausal.Proofs.Searches
import Clausal.Proofs.UnificationFailures

/-!
# Lifting

Two literals of different signs that some substitution makes about one atom are resolved on, and
under that substitution the resolvent has the remaining literals of the two clauses.
-/

namespace Clausal

set_option autoImplicit false

open Unification

theorem exists_unify_of_subst_eq {t u : Term} {r : Substitution} (h : t.subst r = u.subst r) :
    ∃ s, unify t u = .ok s ∧ r.Absorbs s := by
  have habs : r.Absorbs .empty := fun v => rfl
  obtain ⟨s, hs⟩ := exists_unifyUnder_eq_ok Substitution.idempotent_empty h habs
  have hsolution : Solution r ⟨.empty, [⟨t, u⟩]⟩ := ⟨habs, by simpa using h⟩
  exact ⟨s, hs, (Steps.solution (steps_of_unifyUnder_eq_ok hs) hsolution).absorbs⟩

theorem subst_eq_of_unify_eq_ok {t u : Term} {s : Substitution} (ht : t.aritiesMatch = true)
    (hu : u.aritiesMatch = true) (h : unify t u = .ok s) : t.subst s = u.subst s :=
  subst_eq_of_unifyUnder_eq_ok Substitution.idempotent_empty ht hu (fun v b hv => by cases hv) h

theorem exists_mem_resolvents_of_subst_eq {c d : Clause} {l m : Literal} {r : Substitution}
    (hl : l ∈ c) (hm : m ∈ d) (hsign : l.isOpposite m = true)
    (h : l.term.subst r = m.term.subst r) :
    ∃ s, r.Absorbs s ∧ ⟨Resolution.conclude c d l m s, l, m, s⟩ ∈ resolvents c d := by
  obtain ⟨s, hs, habs⟩ := exists_unify_of_subst_eq h
  exact ⟨s, habs, mem_resolvents_iff.mpr ⟨l, hl, m, hm, hsign, s, hs, rfl⟩⟩

namespace Saturation

/-- A saturated set holds a resolvent of any two different clauses with literals that can be made
complementary, and it has no literals but instances of the others. -/
theorem Saturated.exists_lifted {held : ClauseSet} (h : Saturated held) {c d : Clause}
    (hc : c ∈ held) (hd : d ∈ held) (hne : c ≠ d) {l m : Literal} (hl : l ∈ c) (hm : m ∈ d)
    (hsign : l.isOpposite m = true) {r : Substitution} (hr : l.term.subst r = m.term.subst r) :
    ∃ e ∈ held, ∃ s, r.Absorbs s ∧
      ∀ k ∈ e, ∃ j, ((j ∈ c ∧ j ≠ l) ∨ (j ∈ d ∧ j ≠ m)) ∧ j.subst s = k := by
  rcases h.conclusion_mem_or hc hd hne with hcd | hdc
  · obtain ⟨s, habs, hmem⟩ := exists_mem_resolvents_of_subst_eq hl hm hsign hr
    refine ⟨_, hcd _ hmem, s, habs, ?_⟩
    intro k hk
    exact Resolution.mem_conclude.mp hk
  · rw [Literal.isOpposite_comm] at hsign
    obtain ⟨s, habs, hmem⟩ := exists_mem_resolvents_of_subst_eq hm hl hsign hr.symm
    refine ⟨_, hdc _ hmem, s, habs, ?_⟩
    intro k hk
    obtain ⟨n, hn, hnk⟩ := Resolution.mem_conclude.mp hk
    exact ⟨n, hn.symm, hnk⟩

end Saturation

theorem Resolution.subst_conclude {r s : Substitution} (h : r.Absorbs s) (c d : Clause)
    (l m : Literal) : (conclude c d l m s).subst r = conclude c d l m r := by
  apply Clause.eq_of_mem_iff
  intro k
  simp only [Clause.mem_subst, mem_conclude]
  constructor
  · rintro ⟨_, ⟨j, hj, rfl⟩, rfl⟩
    exact ⟨j, hj, (h.literal_subst_subst j).symm⟩
  · rintro ⟨j, hj, rfl⟩
    exact ⟨_, ⟨j, hj, rfl⟩, h.literal_subst_subst j⟩

theorem exists_filter_pair_eq {c d : Clause} {l m : Literal}
    (h : (l, m) ∈ (resolvents c d).map Resolvent.pair) :
    ∃ p, (resolvents c d).filter (fun q => q.pair = (l, m)) = [p] := by
  have hcount := List.count_eq_one_of_mem (nodup_map_pair_resolvents c d) h
  rw [List.count, List.countP_map, List.countP_eq_length_filter] at hcount
  have hsame : ∀ q ∈ resolvents c d, decide (q.pair = (l, m)) = (q.pair == (l, m)) := by
    intro q _
    rw [Bool.eq_iff_iff, decide_eq_true_iff, beq_iff_eq]
  rw [List.filter_congr hsame]
  exact List.length_eq_one_iff.mp hcount

/-- Two literals of different signs that a substitution makes about one atom are resolved on exactly
once, and the conclusion becomes, under that substitution, what is left of both clauses. Where
symbols declare the arguments they have, no other literals are resolved on. -/
theorem resolvents_lift (c d : Clause) :
    (∀ l ∈ c, ∀ m ∈ d, l.isOpposite m = true → ∀ r : Substitution,
      l.term.subst r = m.term.subst r →
      ∃ p, (resolvents c d).filter (fun q => q.pair = (l, m)) = [p] ∧
        p.conclusion.subst r = ((c.without l).union (d.without m)).subst r) ∧
    ((∀ l ∈ c, l.term.aritiesMatch = true) → (∀ m ∈ d, m.term.aritiesMatch = true) →
      ∀ p ∈ resolvents c d, p.left ∈ c ∧ p.right ∈ d ∧ p.left.isOpposite p.right = true ∧
        ∃ r : Substitution, p.left.term.subst r = p.right.term.subst r) := by
  constructor
  · intro l hl m hm hsign r hr
    obtain ⟨s, hs, habs⟩ := exists_unify_of_subst_eq hr
    obtain ⟨p, hp⟩ := exists_filter_pair_eq
      (mem_map_pair_resolvents.mpr ⟨hl, hm, hsign, s, hs⟩)
    refine ⟨p, hp, ?_⟩
    have hmem : ⟨Resolution.conclude c d l m s, l, m, s⟩ ∈ [p] := by
      rw [← hp, List.mem_filter]
      exact ⟨mem_resolvents_iff.mpr ⟨l, hl, m, hm, hsign, s, hs, rfl⟩, decide_eq_true rfl⟩
    rw [← List.mem_singleton.mp hmem, Resolution.subst_conclude habs,
      Resolution.conclude_eq_subst_union]
  · intro hc hd p hp
    obtain ⟨l, hl, m, hm, hsign, s, hs, rfl⟩ := mem_resolvents_iff.mp hp
    exact ⟨hl, hm, hsign, s, subst_eq_of_unify_eq_ok (hc l hl) (hd m hm) hs⟩

section Example

def someP : Clause :=
  .ofList [⟨true, .compound "P" [.var "x"]⟩, ⟨true, .compound "P" [.var "y"]⟩,
    ⟨true, .compound "Q" [.var "x"]⟩]

def notBoth : Clause :=
  .ofList [⟨false, .compound "P" [.const "A"]⟩, ⟨false, .compound "Q" [.var "y"]⟩]

/-- Resolving `P(x) ∨ P(y) ∨ Q(x)` with `¬P(A) ∨ ¬Q(y)` on `P(x)` leaves `P(y)`, which becomes
the literal resolved on when `y` is `A` too. -/
theorem resolvents_lift_someP :
    ⟨true, .compound "P" [.var "x"]⟩ ∈ someP ∧ ⟨false, .compound "P" [.const "A"]⟩ ∈ notBoth ∧
    ∃ p, (resolvents someP notBoth).filter (fun q =>
        q.pair = (⟨true, .compound "P" [.var "x"]⟩, ⟨false, .compound "P" [.const "A"]⟩)) = [p] ∧
      p.conclusion.subst ((Substitution.single "x" (.const "A")).insert "y" (.const "A")) =
        .ofList [⟨false, .compound "Q" [.const "A"]⟩, ⟨true, .compound "P" [.const "A"]⟩,
          ⟨true, .compound "Q" [.const "A"]⟩] :=
  ⟨by decide, by decide,
    (resolvents_lift someP notBoth).1 _ (by decide) _ (by decide) rfl
      ((Substitution.single "x" (.const "A")).insert "y" (.const "A")) rfl⟩

end Example

theorem exists_unify_swap {t u : Term} (ht : t.aritiesMatch = true) (hu : u.aritiesMatch = true)
    (h : ∃ s, unify t u = .ok s) : ∃ s, unify u t = .ok s :=
  exists_unifyUnder_swap Substitution.idempotent_empty ht hu (fun v b hv => by cases hv) h

theorem subst_conclusion_of_swap {c d : Clause} {l m : Literal} {s s' : Substitution}
    (hl : l.term.aritiesMatch = true) (hm : m.term.aritiesMatch = true)
    (hs : unify l.term m.term = .ok s) (hs' : unify m.term l.term = .ok s') :
    (Resolution.conclude c d l m s).subst s' = Resolution.conclude d c m l s' := by
  have hunified := subst_eq_of_unify_eq_ok hm hl hs'
  obtain ⟨_, hs'', habs⟩ := exists_unify_of_subst_eq hunified.symm
  cases hs.symm.trans hs''
  rw [Resolution.subst_conclude habs, Resolution.conclude_swap]

/-- Where symbols declare the arguments they have, resolving two clauses the other way round gives
as many resolvents, for the same pairs, and each conclusion becomes its counterpart under the
counterpart's unifier. -/
theorem resolvents_swap_variants {c d : Clause}
    (hc : ∀ l ∈ c, l.term.aritiesMatch = true) (hd : ∀ m ∈ d, m.term.aritiesMatch = true) :
    (∀ p ∈ resolvents c d, ∃ p' ∈ resolvents d c, p'.left = p.right ∧ p'.right = p.left ∧
      p.conclusion.subst p'.unifier = p'.conclusion ∧
      p'.conclusion.subst p.unifier = p.conclusion) ∧
    (resolvents c d).length = (resolvents d c).length := by
  constructor
  · intro p hp
    obtain ⟨l, hl, m, hm, hsign, s, hs, rfl⟩ := mem_resolvents_iff.mp hp
    obtain ⟨s', hs'⟩ := exists_unify_swap (hc l hl) (hd m hm) ⟨s, hs⟩
    rw [Literal.isOpposite_comm] at hsign
    refine ⟨_, mem_resolvents_iff.mpr ⟨m, hm, l, hl, hsign, s', hs', rfl⟩, rfl, rfl, ?_, ?_⟩
    · exact subst_conclusion_of_swap (hc l hl) (hd m hm) hs hs'
    · exact subst_conclusion_of_swap (hd m hm) (hc l hl) hs' hs
  · apply length_resolvents_swap
    intro l hl m hm
    exact ⟨exists_unify_swap (hc l hl) (hd m hm), exists_unify_swap (hd m hm) (hc l hl)⟩

section Example

def rivals : Clause :=
  .ofList [⟨true, .compound "Rivals" [.var "x", .var "y"]⟩, ⟨true, .compound "Strong" [.var "x"]⟩,
    ⟨true, .compound "Strong" [.var "y"]⟩]

def noOwnRival : Clause := .unit ⟨false, .compound "Rivals" [.var "z", .var "z"]⟩

/-- The two literals that stay fall together, into `Strong(z)` one way and `Strong(y)` the other. -/
theorem resolvents_swap_variants_rivals :
    (resolvents rivals noOwnRival).map Resolvent.conclusion =
      [.unit ⟨true, .compound "Strong" [.var "z"]⟩] ∧
    (resolvents noOwnRival rivals).map Resolvent.conclusion =
      [.unit ⟨true, .compound "Strong" [.var "y"]⟩] ∧
    (∀ l ∈ rivals, l.term.aritiesMatch = true) ∧
    (∀ m ∈ noOwnRival, m.term.aritiesMatch = true) ∧
    ∀ p ∈ resolvents rivals noOwnRival, ∃ p' ∈ resolvents noOwnRival rivals,
      p'.left = p.right ∧ p'.right = p.left ∧ p.conclusion.subst p'.unifier = p'.conclusion ∧
      p'.conclusion.subst p.unifier = p.conclusion := by
  have hrivals : ∀ l ∈ rivals.toList, l.term.aritiesMatch = true := by decide
  have hnoOwnRival : ∀ m ∈ noOwnRival.toList, m.term.aritiesMatch = true := by decide
  exact ⟨rfl, rfl, hrivals, hnoOwnRival, (resolvents_swap_variants hrivals hnoOwnRival).1⟩

end Example

end Clausal
