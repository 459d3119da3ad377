import Clausal.Proofs.Resolvents
import Clausal.Proofs.Searches
import Clausal.Proofs.Substitutions

/-!
# A disproven ground query has a countermodel

A saturated set is closed under cutting out a literal and its complement. From such a set without
the empty clause a valuation is built atom by atom: if both values of the next atom made a clause
false, the two clauses would have a resolvent that was false before.
-/

namespace Clausal

set_option autoImplicit false

open Saturation

/-- For a literal of one clause and its complement in another, some clause has no literals but
the others of the two. -/
def ClauseSet.ClosedUnderCut (held : ClauseSet) : Prop :=
  ∀ c ∈ held, ∀ d ∈ held, ∀ l ∈ c, l.complement ∈ d →
    ∃ e ∈ held, ∀ k ∈ e, (k ∈ c ∧ k ≠ l) ∨ (k ∈ d ∧ k ≠ l.complement)

theorem Literal.complement_ne (l : Literal) : l.complement ≠ l := by
  cases l with
  | mk positive term => cases positive <;> simp [complement]

theorem mem_resolvents_of_complement {c d : Clause} {l : Literal} (hl : l ∈ c)
    (hm : l.complement ∈ d) :
    ⟨Resolution.conclude c d l l.complement .empty, l, l.complement, .empty⟩ ∈ resolvents c d :=
  mem_resolvents_iff.mpr ⟨l, hl, l.complement, hm, l.isOpposite_complement, .empty,
    unify_self l.term, rfl⟩

theorem Saturation.Saturated.closedUnderCut {held : ClauseSet} (h : Saturated held) :
    held.ClosedUnderCut := by
  intro c hc d hd l hl hm
  have unchanged {c d : Clause} {l m k : Literal} (hk : k ∈ Resolution.conclude c d l m .empty) :
      (k ∈ c ∧ k ≠ l) ∨ (k ∈ d ∧ k ≠ m) := by
    obtain ⟨j, hj, rfl⟩ := Resolution.mem_conclude.mp hk
    have hsubst : j.subst .empty = j := by simp [Literal.subst]
    rwa [hsubst]
  by_cases hcd : c = d
  · -- a clause with both literals is its own resolvent
    subst hcd
    refine ⟨c, hc, fun k hk => ?_⟩
    by_cases hkl : k = l
    · exact Or.inr ⟨hk, fun hkm => l.complement_ne (hkm.symm.trans hkl)⟩
    · exact Or.inl ⟨hk, hkl⟩
  rcases h.conclusion_mem_or hc hd hcd with hleft | hright
  · exact ⟨_, hleft _ (mem_resolvents_of_complement hl hm), fun k hk => unchanged hk⟩
  · rw [← l.complement_complement] at hl
    refine ⟨_, hright _ (mem_resolvents_of_complement hm hl), fun k hk => ?_⟩
    have hk := unchanged hk
    rw [l.complement_complement] at hk
    exact hk.symm

section Valuations

/-- Every literal of the clause is about a known atom and false. -/
def Falsified (known : List Term) (v : Term → Bool) (c : Clause) : Prop :=
  ∀ l ∈ c, l.term ∈ known ∧ v l.term ≠ l.positive

def setAtom (v : Term → Bool) (t : Term) (b : Bool) : Term → Bool :=
  fun u => if u = t then b else v u

variable {held : ClauseSet} {known : List Term} {v : Term → Bool} {t : Term}

/-- A clause that setting an atom falsifies holds the literal that the setting makes false, and
the others were false before. -/
theorem falsified_setAtom {c : Clause} {b : Bool} (hnot : ¬ Falsified known v c)
    (h : Falsified (t :: known) (setAtom v t b) c) :
    ⟨!b, t⟩ ∈ c ∧ ∀ k ∈ c, k ≠ ⟨!b, t⟩ → k.term ∈ known ∧ v k.term ≠ k.positive := by
  have others : ∀ k ∈ c, k ≠ ⟨!b, t⟩ → k.term ∈ known ∧ v k.term ≠ k.positive := by
    intro k hk hne
    obtain ⟨hknown, hvalue⟩ := h k hk
    unfold setAtom at hvalue
    by_cases hkt : k.term = t
    · rw [if_pos hkt] at hvalue
      have hsign : k.positive = !b := Bool.eq_not.mpr (Ne.symm hvalue)
      exact absurd (by rw [← hsign, ← hkt]) hne
    · rw [if_neg hkt] at hvalue
      exact ⟨(List.mem_cons.mp hknown).resolve_left hkt, hvalue⟩
  refine ⟨?_, others⟩
  by_cases hmem : ⟨!b, t⟩ ∈ c
  · exact hmem
  · exact absurd (fun k hk => others k hk (fun he => hmem (he ▸ hk))) hnot

/-- One more atom can be decided without falsifying a clause. -/
theorem exists_not_falsified_cons (closed : held.ClosedUnderCut)
    (h : ∀ c ∈ held, ¬ Falsified known v c) (t : Term) :
    ∃ v', ∀ c ∈ held, ¬ Falsified (t :: known) v' c := by
  by_cases htrue : ∀ c ∈ held, ¬ Falsified (t :: known) (setAtom v t true) c
  · exact ⟨_, htrue⟩
  by_cases hfalse : ∀ c ∈ held, ¬ Falsified (t :: known) (setAtom v t false) c
  · exact ⟨_, hfalse⟩
  simp only [Classical.not_forall, Classical.not_not] at htrue hfalse
  obtain ⟨c, hc, hcf⟩ := htrue
  obtain ⟨d, hd, hdf⟩ := hfalse
  obtain ⟨hcl, hrestc⟩ := falsified_setAtom (h c hc) hcf
  obtain ⟨hdl, hrestd⟩ := falsified_setAtom (h d hd) hdf
  obtain ⟨e, he, hes⟩ := closed d hd c hc ⟨true, t⟩ hdl hcl
  refine absurd ?_ (h e he)
  intro k hk
  rcases hes k hk with ⟨hkd, hne⟩ | ⟨hkc, hne⟩
  · exact hrestd k hkd hne
  · exact hrestc k hkc hne

theorem exists_not_falsified (closed : held.ClosedUnderCut) (hempty : ¬ .empty ∈ held)
    (atoms : List Term) : ∃ v, ∀ c ∈ held, ¬ Falsified atoms v c := by
  induction atoms with
  | nil =>
    refine ⟨fun _ => false, fun c hc hf => hempty ?_⟩
    have hnone : c = .empty := by
      apply Clause.eq_of_mem_iff
      intro l
      refine ⟨fun hl => absurd (hf l hl).1 List.not_mem_nil, fun hl => ?_⟩
      exact absurd hl (Clause.not_mem_empty l)
    exact hnone ▸ hc
  | cons t atoms ih =>
    obtain ⟨v, hv⟩ := ih
    exact exists_not_falsified_cons closed hv t

/-- A closed set of clauses without the empty clause has a valuation that makes all true. -/
theorem exists_valuation (closed : held.ClosedUnderCut) (hempty : ¬ .empty ∈ held) :
    ∃ v : Term → Bool, ∀ c ∈ held, ∃ l ∈ c, v l.term = l.positive := by
  let atoms := held.toList.flatMap fun c => c.toList.map Literal.term
  obtain ⟨v, hv⟩ := exists_not_falsified closed hempty atoms
  refine ⟨v, fun c hc => ?_⟩
  have hc' := hv c hc
  simp only [Falsified, Classical.not_forall, Classical.not_and_iff_not_or_not,
    Classical.not_not] at hc'
  obtain ⟨l, hl, hknown | hvalue⟩ := hc'
  · exact absurd (List.mem_flatMap.mpr ⟨c, hc, List.mem_map_of_mem hl⟩) hknown
  · exact ⟨l, hl, hvalue⟩

end Valuations

/-- A truth assignment: the ground atoms that are true. -/
structure GroundModel where
  atoms : Term → Prop
  ground : ∀ t, atoms t → t.isGround = true

namespace GroundModel

def Satisfies (m : GroundModel) (l : Literal) : Prop := m.atoms l.term ↔ l.positive = true

def Holds (m : GroundModel) (c : Clause) : Prop := ∃ l ∈ c, m.Satisfies l

def ofValuation (v : Term → Bool) : GroundModel where
  atoms t := t.isGround = true ∧ v t = true
  ground _ h := h.1

theorem satisfies_ofValuation {v : Term → Bool} {l : Literal} (h : l.isGround = true) :
    (ofValuation v).Satisfies l ↔ v l.term = l.positive := by
  have hground : l.term.isGround = true := h
  unfold Satisfies ofValuation
  cases hv : v l.term <;> cases hl : l.positive <;> simp [hground, hv]

end GroundModel

/-- A disproven query over ground clauses is false in some truth assignment that makes all the
clauses true. -/
theorem entails_ground_complete (p : Prover) (clock : Clock) (given : ClauseSet)
    (query : Literal) (ground : ∀ c ∈ given, ∀ l ∈ c, l.isGround = true)
    (groundQuery : query.isGround = true)
    (disproven : (p.entails clock given query).verdict = .disproven) :
    ∃ m : GroundModel, (∀ c ∈ given, m.Holds c) ∧ ¬ m.Satisfies query := by
  have outcome := outcome_entails p clock given query
  generalize p.entails clock given query = answer at outcome disproven
  cases outcome with
  | proven => cases disproven
  | inconclusive => cases disproven
  | @disproven h tally hh hempty hsaturated htally =>
    obtain ⟨v, hv⟩ := exists_valuation hsaturated.closedUnderCut hempty
    refine ⟨.ofValuation v, ?_, ?_⟩
    · intro c hc
      obtain ⟨l, hl, hvl⟩ := hv c (hh.mem_of_mem_start (Holding.mem_start.mpr (Or.inr hc)))
      exact ⟨l, hl, (GroundModel.satisfies_ofValuation (ground c hc l hl)).mpr hvl⟩
    · obtain ⟨l, hl, hvl⟩ := hv _ (hh.mem_of_mem_start (Holding.mem_start.mpr (Or.inl rfl)))
      obtain rfl := Clause.mem_unit.mp hl
      rw [GroundModel.satisfies_ofValuation groundQuery]
      intro hq
      exact (Bool.eq_not_self _).mp (hq.symm.trans hvl)

/-- The clauses `P(A) ∨ Q(A)` and `¬P(A) ∨ Q(B)`. -/
def alternatives : ClauseSet := .ofList
  [.ofList [⟨true, .compound "P" [.const "A"]⟩, ⟨true, .compound "Q" [.const "A"]⟩],
    .ofList [⟨false, .compound "P" [.const "A"]⟩, ⟨true, .compound "Q" [.const "B"]⟩]]

/-- Asked for `Q(A)`, the search finds three more clauses before it is saturated. -/
theorem entails_ground_complete_alternatives :
    (∀ c ∈ alternatives, ∀ l ∈ c, l.isGround = true) ∧
    (Prover.entails {} (fun _ => .zero) alternatives
      ⟨true, .compound "Q" [.const "A"]⟩).verdict = .disproven ∧
    ∃ m : GroundModel, (∀ c ∈ alternatives, m.Holds c) ∧
      ¬ m.Satisfies ⟨true, .compound "Q" [.const "A"]⟩ := by
  refine ⟨?ground, ?disproven, entails_ground_complete _ _ _ _ ?ground rfl ?disproven⟩
  · simp [alternatives, Literal.isGround, Term.compound, Term.isGround, Term.areGround]
  · rfl

end Clausal
