import Clausal.Proofs.Extraction
import Clausal.Proofs.Searches

/-!
# Every refutation checks

Each origin that a search keeps says truly where its clause comes from. Following origins from the
empty clause never leads out of the lists, so there is a refutation.
-/

namespace Clausal

set_option autoImplicit false

/-- The steps of a refutation are in order, end in the empty clause, follow from what their
origins name, and are all needed. -/
structure Refutation.Checks (r : Refutation) (given : ClauseSet) (query : Literal) : Prop where
  increasing : r.steps.Pairwise (fun s t => s.index < t.index)
  last : ∃ s, r.steps.getLast? = some s ∧ s.index = r.root ∧ s.conclusion = .empty
  given : ∀ s ∈ r.steps, s.origin = .given → given.toList[s.index]? = some s.conclusion
  negatedQuery : ∀ s ∈ r.steps, s.origin = .negatedQuery → s.conclusion = .unit query.complement
  resolved : ∀ before s after, r.steps = before ++ s :: after →
    ∀ i j, s.origin = .resolved i j → i < j ∧ j < s.index ∧
      ∃ a ∈ before, ∃ b ∈ before, a.index = i ∧ b.index = j ∧
        ∃ x ∈ resolvents a.conclusion b.conclusion, x.conclusion = s.conclusion
  needed : ∀ before s after, r.steps = before ++ s :: after → after ≠ [] →
    ∃ t ∈ after, s.index ∈ t.origin.premises

namespace Saturation

/-- The origin of a clause at index `k` is true. -/
def Justifies (given : ClauseSet) (query : Literal) (clauses : List Clause) (k : Nat)
    (c : Clause) : Origin → Prop
  | .given => given.toList[k]? = some c
  | .negatedQuery => c = .unit query.complement
  | .resolved i j => i < j ∧ j < k ∧ ∃ a b, clauses[i]? = some a ∧ clauses[j]? = some b ∧
    ∃ x ∈ resolvents a b, x.conclusion = c

def Holding.Justified (given : ClauseSet) (query : Literal) (h : Holding) : Prop :=
  ∀ k c o, h.clauses.toList[k]? = some c → h.origins[k]? = some o →
    Justifies given query h.clauses.toList k c o

variable {given : ClauseSet} {query : Literal} {h : Holding}

theorem Justifies.mono {clauses clauses' : List Clause} {k : Nat} {c : Clause} {o : Origin}
    (hcs : clauses <+: clauses') (ho : Justifies given query clauses k c o) :
    Justifies given query clauses' k c o := by
  cases o with
  | given => exact ho
  | negatedQuery => exact ho
  | resolved i j =>
    obtain ⟨hij, hjk, a, b, ha, hb, hx⟩ := ho
    exact ⟨hij, hjk, a, b, getElem?_of_prefix hcs ha, getElem?_of_prefix hcs hb, hx⟩

theorem Holding.Justified.insert (hh : h.Justified given query) {c : Clause} {o : Origin}
    (hnew : Justifies given query h.clauses.toList h.size c o) :
    (h.insert c o).Justified given query := by
  intro k d p hd hp
  apply Justifies.mono (h.prefix_insert c o)
  rw [Holding.toList_insert] at hd
  rw [Holding.origins_insert] at hp
  by_cases hc : c ∈ h.clauses
  · rw [if_pos hc] at hd hp
    exact hh k d p hd hp
  rw [if_neg hc] at hd hp
  have hlength : h.origins.length = h.clauses.toList.length := h.aligned
  rcases Nat.lt_or_ge k h.clauses.toList.length with hk | hk
  · rw [List.getElem?_append_left hk] at hd
    rw [List.getElem?_append_left (hlength ▸ hk)] at hp
    exact hh k d p hd hp
  · rw [List.getElem?_append_right hk] at hd
    rw [List.getElem?_append_right (hlength ▸ hk), hlength] at hp
    -- the only index that is left is that of the new clause
    have hsize : k = h.size := by
      have hlt := (List.getElem?_eq_some_iff.mp hd).1
      rw [List.length_singleton] at hlt
      change k = h.clauses.toList.length
      omega
    subst hsize
    have hzero : h.size - h.clauses.toList.length = 0 := Nat.sub_self _
    rw [hzero] at hd hp
    obtain rfl := Option.some.inj hd
    obtain rfl := Option.some.inj hp
    exact hnew

theorem justified_ofGiven : (Holding.ofGiven given).Justified given query := by
  intro k c o hc ho
  obtain ⟨d, -, rfl⟩ := List.mem_map.mp (List.mem_of_getElem? ho)
  exact hc

theorem Derivable.justified (hh : Derivable given query h) : h.Justified given query := by
  induction hh with
  | start => exact justified_ofGiven.insert rfl
  | @infer h x _ hx ih =>
    obtain ⟨hlt, hleft, hright, hr⟩ := mem_inferences_iff.mp hx
    apply ih.insert
    exact ⟨hlt, (List.getElem?_eq_some_iff.mp hright).1, x.left.1, x.right.1, hleft, hright,
      x.resolvent, hr, rfl⟩

namespace Holding.Justified

open Refutation

variable (hh : h.Justified given query)
include hh

theorem lt_of_uses {i j : Nat} (huses : Uses h.clauses.toList h.origins i j) : j < i := by
  obtain ⟨hi, o, ho, hj⟩ := huses
  have hjustifies := hh i _ o (List.getElem?_eq_getElem hi) ho
  cases o with
  | given => cases hj
  | negatedQuery => cases hj
  | resolved a b =>
    obtain ⟨hab, hbi, -⟩ := hjustifies
    simp only [Origin.premises, List.mem_cons, List.not_mem_nil, or_false] at hj
    omega

theorem le_of_restsOn {root i : Nat} (hrests : RestsOn h.clauses.toList h.origins root i) :
    i ≤ root := by
  induction hrests with
  | refl => exact Nat.le_refl root
  | tail _ huses ih => exact Nat.le_trans (Nat.le_of_lt (hh.lt_of_uses huses)) ih

theorem inRange_of_restsOn {root i : Nat} (hroot : root < h.clauses.toList.length)
    (hrests : RestsOn h.clauses.toList h.origins root i) :
    InRange h.clauses.toList h.origins i := by
  have hi := Nat.lt_of_le_of_lt (hh.le_of_restsOn hrests) hroot
  have hlength : h.origins.length = h.clauses.toList.length := h.aligned
  exact ⟨hi, hlength ▸ hi⟩

end Holding.Justified

section Sorted

variable {steps before after : List Step} {s t : Step}
  (hsorted : steps.Pairwise (fun s t => s.index < t.index))
  (hsplit : steps = before ++ s :: after) (ht : t ∈ steps)
include hsorted hsplit ht

theorem mem_before_of_lt (hlt : t.index < s.index) : t ∈ before := by
  subst hsplit
  obtain ⟨-, htail, -⟩ := List.pairwise_append.mp hsorted
  rcases List.mem_append.mp ht with ht | ht
  · exact ht
  rcases List.mem_cons.mp ht with rfl | ht
  · omega
  · have := (List.pairwise_cons.mp htail).1 t ht
    omega

theorem mem_after_of_lt (hlt : s.index < t.index) : t ∈ after := by
  subst hsplit
  obtain ⟨-, -, hcross⟩ := List.pairwise_append.mp hsorted
  rcases List.mem_append.mp ht with ht | ht
  · have := hcross t ht s List.mem_cons_self
    omega
  rcases List.mem_cons.mp ht with rfl | ht
  · omega
  · exact ht

end Sorted

section Checks

variable {root : Nat} {r : Refutation} (hh : h.Justified given query)
  (hr : Refutation.Extracts h.clauses.toList h.origins root r)
include hh hr

theorem index_le_root {s : Step} (hs : s ∈ r.steps) : s.index ≤ root :=
  hh.le_of_restsOn ((hr.mem_steps_iff s).mp hs).1

theorem justifies_of_mem_steps {s : Step} (hs : s ∈ r.steps) :
    Justifies given query h.clauses.toList s.index s.conclusion s.origin := by
  obtain ⟨-, horigin, hclause⟩ := (hr.mem_steps_iff s).mp hs
  exact hh _ _ _ hclause horigin

theorem exists_last_step : ∃ s, r.steps.getLast? = some s ∧ s.index = root := by
  obtain ⟨t, ht, hroot, -⟩ := hr.exists_step .refl
  have hs := List.getLast?_eq_some_getLast (List.ne_nil_of_mem ht)
  generalize r.steps.getLast _ = s at hs
  obtain ⟨before, hsplit⟩ := List.getLast?_eq_some_iff.mp hs
  refine ⟨s, hs, ?_⟩
  have hle := index_le_root hh hr (List.mem_of_getLast? hs)
  rcases Nat.lt_or_ge s.index root with hlt | hge
  · cases mem_after_of_lt hr.increasing hsplit ht (hroot ▸ hlt)
  · exact Nat.le_antisymm hle hge

theorem premises_before {before after : List Step} {s : Step} {i j : Nat}
    (hsplit : r.steps = before ++ s :: after) (horigin : s.origin = .resolved i j) :
    i < j ∧ j < s.index ∧ ∃ a ∈ before, ∃ b ∈ before, a.index = i ∧ b.index = j ∧
      ∃ x ∈ resolvents a.conclusion b.conclusion, x.conclusion = s.conclusion := by
  have hs : s ∈ r.steps := hsplit ▸ List.mem_append_right _ List.mem_cons_self
  obtain ⟨hrests, hso, hsc⟩ := (hr.mem_steps_iff s).mp hs
  have hjustifies := justifies_of_mem_steps hh hr hs
  rw [horigin] at hjustifies hso
  obtain ⟨hij, hjs, a, b, ha, hb, hx⟩ := hjustifies
  have premise {k : Nat} {c : Clause} (hk : k ∈ (Origin.resolved i j).premises)
      (hks : k < s.index) (hc : h.clauses.toList[k]? = some c) :
      ∃ t ∈ before, t.index = k ∧ t.conclusion = c := by
    have huses : Refutation.Uses h.clauses.toList h.origins s.index k :=
      ⟨(List.getElem?_eq_some_iff.mp hsc).1, _, hso, hk⟩
    obtain ⟨t, ht, htk, -, htc⟩ := hr.exists_step (hrests.tail huses)
    have hbefore := mem_before_of_lt hr.increasing hsplit ht (htk ▸ hks)
    exact ⟨t, hbefore, htk, Option.some.inj (htc.symm.trans hc)⟩
  obtain ⟨t, ht, hti, rfl⟩ := premise (by simp [Origin.premises]) (Nat.lt_trans hij hjs) ha
  obtain ⟨u, hu, huj, rfl⟩ := premise (by simp [Origin.premises]) hjs hb
  exact ⟨hij, hjs, t, ht, u, hu, hti, huj, hx⟩

theorem premise_of_later {before after : List Step} {s : Step}
    (hsplit : r.steps = before ++ s :: after) (hafter : after ≠ []) :
    ∃ t ∈ after, s.index ∈ t.origin.premises := by
  have hs : s ∈ r.steps := hsplit ▸ List.mem_append_right _ List.mem_cons_self
  obtain ⟨hrests, -, -⟩ := (hr.mem_steps_iff s).mp hs
  rcases Relation.ReflTransGen.cases_tail hrests with hroot | ⟨m, hm, huses⟩
  · -- the root is the greatest index, so nothing comes after its step
    obtain ⟨t, rest, rfl⟩ := List.exists_cons_of_ne_nil hafter
    have hle := index_le_root hh hr (s := t) (by simp [hsplit])
    have hsorted := hr.increasing
    rw [hsplit] at hsorted
    have hlt := (List.pairwise_cons.mp (List.pairwise_append.mp hsorted).2.1).1 t List.mem_cons_self
    omega
  · obtain ⟨t, ht, rfl, hto, -⟩ := hr.exists_step hm
    have hlt := hh.lt_of_uses huses
    obtain ⟨-, o, ho, hpremise⟩ := huses
    obtain rfl := Option.some.inj (ho.symm.trans hto)
    exact ⟨t, mem_after_of_lt hr.increasing hsplit ht hlt, hpremise⟩

theorem Holding.Justified.checks (hroot : h.clauses.toList[root]? = some .empty) :
    r.Checks given query := by
  refine ⟨hr.increasing, ?_, ?_, ?_, ?_, ?_⟩
  · obtain ⟨s, hs, hsroot⟩ := exists_last_step hh hr
    obtain ⟨-, -, hclause⟩ := (hr.mem_steps_iff s).mp (List.mem_of_getLast? hs)
    rw [hsroot, hroot] at hclause
    exact ⟨s, hs, hsroot.trans hr.root_eq.symm, (Option.some.inj hclause).symm⟩
  · intro s hs horigin
    have hjustifies := justifies_of_mem_steps hh hr hs
    rw [horigin] at hjustifies
    exact hjustifies
  · intro s hs horigin
    have hjustifies := justifies_of_mem_steps hh hr hs
    rw [horigin] at hjustifies
    exact hjustifies
  · intro before s after hsplit i j horigin
    exact premises_before hh hr hsplit horigin
  · intro before s after hsplit hafter
    exact premise_of_later hh hr hsplit hafter

end Checks

/-- Once the empty clause is held there is a refutation, and it checks. -/
theorem Derivable.exists_refutation (hh : Derivable given query h) (hempty : .empty ∈ h.clauses) :
    ∃ r, h.refutation = some r ∧ r.Checks given query := by
  cases hidx : h.clauses.toList.idxOf? .empty with
  | none => exact absurd hempty (List.idxOf?_eq_none_iff.mp hidx)
  | some root =>
    obtain ⟨hlt, hvalue, -⟩ := List.idxOf?_eq_some_iff.mp hidx
    have hroot : h.clauses.toList[root]? = some .empty := by
      rw [List.getElem?_eq_getElem hlt, hvalue]
    obtain ⟨r, hr⟩ := Refutation.exists_extract_eq_some
      (fun i hi => hh.justified.inRange_of_restsOn hlt hi)
    refine ⟨r, ?_, hh.justified.checks (Refutation.extracts_of_extract_eq_some hr) hroot⟩
    unfold Holding.refutation
    rw [hidx]
    exact hr

end Saturation

open Saturation

/-- An answer comes with a refutation exactly when the query is proven, and the refutation
checks. -/
theorem entails_refutation_checks (p : Prover) (clock : Clock) (given : ClauseSet)
    (query : Literal) :
    ((p.entails clock given query).refutation.isSome = true ↔
      (p.entails clock given query).verdict = .proven) ∧
    ∀ r, (p.entails clock given query).refutation = some r → r.Checks given query := by
  have outcome := outcome_entails p clock given query
  generalize p.entails clock given query = answer at outcome
  cases outcome with
  | proven hh hempty =>
    obtain ⟨r, hr, hchecks⟩ := hh.exists_refutation hempty
    simp [hr, hchecks]
  | disproven => simp
  | inconclusive => simp

end Clausal
