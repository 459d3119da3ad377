import Mathlib.Data.List.Nodup
import Mathlib.Data.Prod.Basic
import Clausal.Resolution

/-!
# The resolvents of two clauses

Which resolvents two clauses have, that no pair of literals is resolved on twice, and that every
literal resolves with its own complement without a binding.
-/

namespace Clausal

set_option autoImplicit false

theorem Literal.isOpposite_iff {l m : Literal} :
    l.isOpposite m = true ↔ l.positive ≠ m.positive := bne_iff_ne

theorem Literal.isOpposite_comm (l m : Literal) : l.isOpposite m = m.isOpposite l := by
  rw [Bool.eq_iff_iff, isOpposite_iff, isOpposite_iff]
  exact ne_comm

/-- A resolvent arises from two literals of different signs and a unifier of their terms. -/
theorem mem_resolvents_iff {c d : Clause} {r : Resolvent} :
    r ∈ resolvents c d ↔ ∃ l ∈ c, ∃ m ∈ d, l.isOpposite m = true ∧
      ∃ s, unify l.term m.term = .ok s ∧ r = ⟨Resolution.conclude c d l m s, l, m, s⟩ := by
  have attempt_iff (l m : Literal) : (Resolution.attempt c d l m).resolvent? = some r ↔
      ∃ s, unify l.term m.term = .ok s ∧ r = ⟨Resolution.conclude c d l m s, l, m, s⟩ := by
    unfold Resolution.attempt
    cases unify l.term m.term with
    | ok s => simp [Resolution.Attempt.resolvent?, eq_comm]
    | error e => simp [Resolution.Attempt.resolvent?]
  simp only [resolvents, Resolution.attempts, List.mem_filterMap, List.mem_flatMap, List.mem_map,
    List.mem_filter, Clause.mem_toList]
  constructor
  · rintro ⟨_, ⟨l, hl, m, ⟨hm, hlm⟩, rfl⟩, h⟩
    exact ⟨l, hl, m, hm, hlm, (attempt_iff l m).mp h⟩
  · rintro ⟨l, hl, m, hm, hlm, h⟩
    exact ⟨_, ⟨l, hl, m, ⟨hm, hlm⟩, rfl⟩, (attempt_iff l m).mpr h⟩

theorem Clause.nodup_toList (c : Clause) : c.toList.Nodup := by
  apply c.literals.increasing.imp
  intro l m hlt heq
  rw [heq, Std.ReflOrd.compare_self] at hlt
  cases hlt

def Clause.union (c d : Clause) : Clause := ⟨c.literals.union d.literals⟩

@[simp] theorem Clause.mem_union {l : Literal} {c d : Clause} :
    l ∈ c.union d ↔ l ∈ c ∨ l ∈ d := SortedSet.mem_union

def Resolvent.pair (r : Resolvent) : Literal × Literal := (r.left, r.right)

namespace Resolution

theorem conclude_eq_subst_union (c d : Clause) (l m : Literal) (s : Substitution) :
    conclude c d l m s = ((c.without l).union (d.without m)).subst s := by
  apply Clause.eq_of_mem_iff
  intro k
  simp

theorem conclude_swap (c d : Clause) (l m : Literal) (s : Substitution) :
    conclude c d l m s = conclude d c m l s := by
  apply Clause.eq_of_mem_iff
  intro k
  simp only [mem_conclude, or_comm]

def Attempt.literals : Attempt → Literal × Literal
  | resolved r => r.pair
  | skipped left right _ => (left, right)

theorem literals_attempt (c d : Clause) (l m : Literal) : (attempt c d l m).literals = (l, m) := by
  unfold attempt
  cases unify l.term m.term <;> rfl

theorem nodup_literals_attempts (c d : Clause) :
    ((attempts c d).map Attempt.literals).Nodup := by
  have hpairs : (attempts c d).map Attempt.literals =
      (c.toList.product d.toList).filter fun p => p.1.isOpposite p.2 := by
    simp only [attempts, List.map_flatMap, List.map_map, List.product, List.filter_flatMap,
      List.filter_map]
    apply List.flatMap_congr
    intro l _
    apply List.map_congr_left
    intro m _
    exact literals_attempt c d l m
  rw [hpairs]
  exact (c.nodup_toList.product d.nodup_toList).filter _

theorem map_pair_sublist (as : List Attempt) :
    ((as.filterMap Attempt.resolvent?).map Resolvent.pair).Sublist (as.map Attempt.literals) := by
  induction as with
  | nil => exact List.Sublist.slnil
  | cons a as ih =>
    cases a with
    | resolved r => exact ih.cons_cons r.pair
    | skipped l m e => exact ih.cons (l, m)

end Resolution

/-- No pair of literals is resolved on twice. -/
theorem nodup_map_pair_resolvents (c d : Clause) :
    ((resolvents c d).map Resolvent.pair).Nodup :=
  (Resolution.nodup_literals_attempts c d).sublist (Resolution.map_pair_sublist _)

theorem mem_map_pair_resolvents {c d : Clause} {l m : Literal} :
    (l, m) ∈ (resolvents c d).map Resolvent.pair ↔
      l ∈ c ∧ m ∈ d ∧ l.isOpposite m = true ∧ ∃ s, unify l.term m.term = .ok s := by
  rw [List.mem_map]
  constructor
  · rintro ⟨r, hr, hpair⟩
    obtain ⟨l', hl, m', hm, hsign, s, hs, rfl⟩ := mem_resolvents_iff.mp hr
    cases hpair
    exact ⟨hl, hm, hsign, s, hs⟩
  · rintro ⟨hl, hm, hsign, s, hs⟩
    exact ⟨_, mem_resolvents_iff.mpr ⟨l, hl, m, hm, hsign, s, hs, rfl⟩, rfl⟩

/-- Two clauses have as many resolvents in either order if the same terms unify in either order. -/
theorem length_resolvents_swap {c d : Clause}
    (h : ∀ l ∈ c, ∀ m ∈ d,
      (∃ s, unify l.term m.term = .ok s) ↔ ∃ s, unify m.term l.term = .ok s) :
    (resolvents c d).length = (resolvents d c).length := by
  have hperm : (((resolvents c d).map Resolvent.pair).map Prod.swap).Perm
      ((resolvents d c).map Resolvent.pair) := by
    apply (List.perm_ext_iff_of_nodup
      ((nodup_map_pair_resolvents c d).map Prod.swap_injective)
      (nodup_map_pair_resolvents d c)).mpr
    rintro ⟨m, l⟩
    have hswap : (m, l) ∈ ((resolvents c d).map Resolvent.pair).map Prod.swap ↔
        (l, m) ∈ (resolvents c d).map Resolvent.pair :=
      List.mem_map_of_injective (a := (l, m)) Prod.swap_injective
    rw [hswap, mem_map_pair_resolvents, mem_map_pair_resolvents, Literal.isOpposite_comm l m]
    constructor
    · rintro ⟨hl, hm, hsign, hunify⟩
      exact ⟨hm, hl, hsign, (h l hl m hm).mp hunify⟩
    · rintro ⟨hm, hl, hsign, hunify⟩
      exact ⟨hl, hm, hsign, (h l hl m hm).mpr hunify⟩
  simpa using hperm.length_eq

namespace Unification

theorem two_le_allowance (s : Substitution) (es : List Equation) : 2 ≤ allowance s es := by
  have hbase : 2 ≤ weight es + Term.sizes s.bindings.values + 2 := Nat.le_add_left 2 _
  have hpow := Nat.pow_le_pow_right (Nat.lt_of_lt_of_le Nat.two_pos hbase)
    (Nat.le_add_left 1 (s.size + 2))
  rw [Nat.pow_one] at hpow
  exact Nat.le_trans hbase hpow

end Unification

/-- Equal terms unify without a binding. -/
theorem unify_self (t : Term) : unify t t = .ok .empty := by
  obtain ⟨n, hn⟩ := Nat.exists_eq_add_of_le' (Unification.two_le_allowance .empty [⟨t, t⟩])
  have hmove : Unification.move .empty ⟨t, t⟩ = .drop := if_pos rfl
  have hsettle : Unification.settle .empty (n + 2) [⟨t, t⟩] = .solved := by
    simp only [Unification.settle, hmove]
  unfold unify unifyUnder Unification.solve
  dsimp only
  rw [hn, hsettle]

end Clausal
