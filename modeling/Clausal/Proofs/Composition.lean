import Clausal.Proofs.Substitutions

/-!
# Composition of substitutions

Applying a composite is applying one substitution after the other. Since a substitution may bind a
variable to itself, the laws of composition are proved binding by binding.
-/

namespace Clausal

set_option autoImplicit false

theorem Substitution.value_compose (s r : Substitution) (v : String) :
    (s.compose r).value v = (s.value v).subst r := by
  unfold value
  rw [get?_compose]
  cases s.get? v <;> rfl

theorem Term.subst_compose (s r : Substitution) (t : Term) :
    t.subst (s.compose r) = (t.subst s).subst r :=
  subst_subst_of_value (Substitution.value_compose s r) t

theorem Literal.subst_compose (s r : Substitution) (l : Literal) :
    l.subst (s.compose r) = (l.subst s).subst r := by
  unfold Literal.subst
  rw [Term.subst_compose]

theorem Clause.subst_compose (s r : Substitution) (c : Clause) :
    c.subst (s.compose r) = (c.subst s).subst r := by
  apply Clause.eq_of_mem_iff
  intro l
  rw [mem_subst, mem_subst]
  constructor
  · rintro ⟨m, hm, rfl⟩
    exact ⟨m.subst s, mem_subst.mpr ⟨m, hm, rfl⟩, (Literal.subst_compose s r m).symm⟩
  · rintro ⟨n, hn, rfl⟩
    obtain ⟨m, hm, rfl⟩ := mem_subst.mp hn
    exact ⟨m, hm, Literal.subst_compose s r m⟩

namespace Substitution

theorem compose_assoc (s r q : Substitution) :
    (s.compose r).compose q = s.compose (r.compose q) := by
  apply eq_of_get?_eq
  intro v
  cases hs : s.get? v with
  | none =>
    -- then `r` decides, and `q` where `r` does not bind the variable either
    simp [hs]
  | some t =>
    calc ((s.compose r).compose q).get? v = some ((t.subst r).subst q) := by simp [hs]
      _ = some (t.subst (r.compose q)) := by rw [Term.subst_compose]
      _ = (s.compose (r.compose q)).get? v := by simp [hs]

theorem empty_compose (s : Substitution) : empty.compose s = s := by
  apply eq_of_get?_eq
  intro v
  simp

theorem compose_empty (s : Substitution) : s.compose empty = s := by
  apply eq_of_get?_eq
  intro v
  cases hs : s.get? v <;> simp [hs]

end Substitution

/-- Composition is sequential application, on terms, literals and clauses; as an operation on
substitutions it is associative, and the empty substitution is neutral. -/
theorem compose_sequential (s r : Substitution) :
    (∀ t : Term, t.subst (s.compose r) = (t.subst s).subst r) ∧
    (∀ l : Literal, l.subst (s.compose r) = (l.subst s).subst r) ∧
    (∀ c : Clause, c.subst (s.compose r) = (c.subst s).subst r) ∧
    (∀ q : Substitution, (s.compose r).compose q = s.compose (r.compose q)) ∧
    Substitution.empty.compose s = s ∧ s.compose .empty = s :=
  ⟨Term.subst_compose s r, Literal.subst_compose s r, Clause.subst_compose s r,
    s.compose_assoc r, s.empty_compose, s.compose_empty⟩

end Clausal
