import Clausal.Proofs.Acyclicity
import Clausal.Proofs.UnificationSteps
import Clausal.Proofs.MostGeneral

/-!
# Unification under chained bindings

The occurs check sees a term after one application of the bindings. If these mention bound
variables, a variable can be bound to a term that leads back to it: under `z → y` and `y → f(x)`,
making `x` and `z` equal binds `x` to `f(x)`. The result is acyclic exactly if no step does this.
-/

namespace Clausal

set_option autoImplicit false

namespace Unification

/-- The equation binds a variable to a term that leads back to it. -/
def ClosesCircle (s : Substitution) (e : Equation) : Prop :=
  ∃ v b, move s e = .assign v b ∧ s.Reaches b v

theorem not_closesCircle_of_move {s : Substitution} {e : Equation} {m : Move} (h : move s e = m)
    (hm : ∀ v b, m ≠ .assign v b) : ¬ ClosesCircle s e := by
  rintro ⟨v, b, hassign, -⟩
  exact hm v b (h.symm.trans hassign)

theorem Step.acyclic_iff {s : Substitution} {e : Equation} {es : List Equation} {q : Problem}
    (h : Step ⟨s, e :: es⟩ q) : q.bindings.Acyclic ↔ s.Acyclic ∧ ¬ ClosesCircle s e := by
  cases h with
  | drop hm => exact (and_iff_left (not_closesCircle_of_move hm (by simp))).symm
  | follow hm => exact (and_iff_left (not_closesCircle_of_move hm (by simp))).symm
  | split hm => exact (and_iff_left (not_closesCircle_of_move hm (by simp))).symm
  | @assign _ _ _ v b hm =>
    have hcircle : ClosesCircle s e ↔ s.Reaches b v := by
      constructor
      · rintro ⟨v', b', hm', hreaches⟩
        cases hm.symm.trans hm'
        exact hreaches
      · exact fun hreaches => ⟨v, b, hm, hreaches⟩
    rw [Substitution.acyclic_bind_iff (get?_of_move_eq_assign hm), hcircle]

theorem Step.exists_cons {p q : Problem} (h : Step p q) : ∃ s e es, p = ⟨s, e :: es⟩ := by
  cases h <;> exact ⟨_, _, _, rfl⟩

theorem rightUnique_step : Relator.RightUnique Step := by
  intro p q q' h h'
  cases h <;> cases h' <;> simp_all

theorem acyclic_of_steps {p q : Problem} (h : Steps p q) (hp : p.bindings.Acyclic)
    (hopen : ∀ s e es, Steps p ⟨s, e :: es⟩ → ¬ ClosesCircle s e) : q.bindings.Acyclic := by
  induction h with
  | refl => exact hp
  | tail hsteps hstep ih =>
    obtain ⟨s, e, es, rfl⟩ := hstep.exists_cons
    exact hstep.acyclic_iff.mpr ⟨ih, hopen s e es hsteps⟩

theorem acyclic_of_steps_to {p q : Problem} (h : Steps p q) (hq : q.bindings.Acyclic) :
    p.bindings.Acyclic := by
  induction h with
  | refl => exact hq
  | tail _ hstep ih =>
    obtain ⟨s, e, es, rfl⟩ := hstep.exists_cons
    exact ih (hstep.acyclic_iff.mp hq).1

/-- On the way to an acyclic solution no circle is closed, not even for a while. -/
theorem not_closesCircle_of_steps {p : Problem} {s s' : Substitution} {e : Equation}
    {es : List Equation} (h : Steps p ⟨s, []⟩) (hs : s.Acyclic) (h' : Steps p ⟨s', e :: es⟩) :
    ¬ ClosesCircle s' e := by
  -- there is one sequence of steps, and it does not go on from where no equation is left
  rcases Relation.ReflTransGen.total_of_right_unique rightUnique_step h' h with hrest | hrest
  · rcases Relation.ReflTransGen.cases_head hrest with heq | ⟨q, hstep, hrest⟩
    · cases heq
    · exact (hstep.acyclic_iff.mp (acyclic_of_steps_to hrest hs)).2
  · rcases Relation.ReflTransGen.cases_head hrest with heq | ⟨q, hstep, -⟩
    · cases heq
    · obtain ⟨_, _, _, heq⟩ := hstep.exists_cons
      cases heq

theorem Equation.Completed.arguments {s : Substitution} {e : Equation} (he : e.Completed s)
    {f g : Symbol} {ts us : List Term} (hl : e.left.subst s = .app f ts)
    (hr : e.right.subst s = .app g us) :
    ∀ e' ∈ List.zipWith Equation.mk ts us, e'.Completed s := by
  have hargs {t a : Term} {h : Symbol} {as : List Term} (ht : s.Completes t)
      (hinst : t.subst s = .app h as) (ha : a ∈ as) : s.Completes a := by
    apply Substitution.completes_of_unbound
    intro w hw
    apply ht w
    rw [hinst]
    exact (Term.mentions_app w h as).mpr ⟨a, ha, hw⟩
  intro e' he'
  obtain ⟨ht, hu⟩ := mem_of_mem_zipWith he'
  exact ⟨hargs he.1 hl ht, hargs he.2 hr hu⟩

theorem Step.completed {p q : Problem} (h : Step p q)
    (hp : ∀ e ∈ p.equations, e.Completed p.bindings) :
    ∀ e ∈ q.equations, e.Completed q.bindings := by
  cases h with
  | drop hm => exact (List.forall_mem_cons.mp hp).2
  | follow hm => exact absurd hm ((List.forall_mem_cons.mp hp).1.move_ne_follow _)
  | split hm =>
    obtain ⟨he, hes⟩ := List.forall_mem_cons.mp hp
    cases reason_of_move_eq hm with
    | split hl hr _ _ => exact List.forall_mem_append.mpr ⟨he.arguments hl hr, hes⟩
  | assign hm =>
    obtain ⟨he, hes⟩ := List.forall_mem_cons.mp hp
    cases reason_of_move_eq hm with
    | assign hv hbv hf =>
      intro e' he'
      obtain ⟨hl, hr⟩ := hes e' he'
      exact ⟨hl.bind hv (he.unbound hf).2 hbv, hr.bind hv (he.unbound hf).2 hbv⟩

theorem Steps.completed {p q : Problem} (h : Steps p q)
    (hp : ∀ e ∈ p.equations, e.Completed p.bindings) :
    ∀ e ∈ q.equations, e.Completed q.bindings := by
  induction h with
  | refl => exact hp
  | tail _ hstep ih => exact hstep.completed ih

theorem Equation.Completed.not_closesCircle {s : Substitution} {e : Equation}
    (he : e.Completed s) : ¬ ClosesCircle s e := by
  rintro ⟨v, b, hm, w, hw, hwv⟩
  cases reason_of_move_eq hm with
  | assign hv hbv hf =>
    rcases Relation.ReflTransGen.cases_head hwv with rfl | ⟨x, hwx, -⟩
    · rw [hbv] at hw
      cases hw
    · exact hwx.get?_ne_none ((he.unbound hf).2 w hw)

end Unification

open Unification

section

variable {s₀ s : Substitution} {t u : Term}

theorem acyclic_iff_of_unifyUnder_eq_ok (acyclic : s₀.Acyclic)
    (unified : unifyUnder s₀ t u = .ok s) :
    s.Acyclic ↔ ∀ s' e es, Steps ⟨s₀, [⟨t, u⟩]⟩ ⟨s', e :: es⟩ → ¬ ClosesCircle s' e := by
  have hsteps := steps_of_unifyUnder_eq_ok unified
  constructor
  · intro hs s' e es h'
    exact not_closesCircle_of_steps hsteps hs h'
  · exact acyclic_of_steps hsteps acyclic

theorem exists_settles_of_unifyUnder_eq_ok (unified : unifyUnder s₀ t u = .ok s)
    (hs : s.Acyclic) :
    ∃ e e', s.Settles t e ∧ s.Settles u e' ∧ e.normalize = e'.normalize ∧
      (t.aritiesMatch = true → u.aritiesMatch = true →
        (∀ v b, s₀.get? v = some b → b.aritiesMatch = true) → e = e') := by
  obtain ⟨r, habs, hsettles⟩ := hs.exists_resolution
  have hagree := (agreement_of_absorbs unified habs).agrees ⟨t, u⟩ List.mem_cons_self
  refine ⟨t.subst r, u.subst r, hsettles t, hsettles u, hagree, ?_⟩
  intro ht hu hs₀
  have hmatch := (all_of_unifyUnder_eq_ok hereditary_aritiesMatch ht hu hs₀ unified).1
  exact Term.eq_of_normalize_eq ((hsettles t).aritiesMatch ht hmatch)
    ((hsettles u).aritiesMatch hu hmatch) hagree

end

/-- Unifying under an acyclic substitution gives an acyclic one exactly if no step binds a variable
to a term that leads back to it; none does if one application of the given bindings completes
both terms. When the result is acyclic, applying it until nothing changes makes the terms equal, up
to declared arities where these are not right. -/
theorem unifyUnder_acyclic_unless_circle {s₀ s : Substitution} {t u : Term}
    (acyclic : s₀.Acyclic) (unified : unifyUnder s₀ t u = .ok s) :
    (s.Acyclic ↔ ∀ s' e es, Steps ⟨s₀, [⟨t, u⟩]⟩ ⟨s', e :: es⟩ → ¬ ClosesCircle s' e) ∧
    (s₀.Completes t → s₀.Completes u → s.Acyclic) ∧
    (s.Acyclic → ∃ e e', s.Settles t e ∧ s.Settles u e' ∧ e.normalize = e'.normalize ∧
      (t.aritiesMatch = true → u.aritiesMatch = true →
        (∀ v b, s₀.get? v = some b → b.aritiesMatch = true) → e = e')) := by
  have hiff := acyclic_iff_of_unifyUnder_eq_ok acyclic unified
  refine ⟨hiff, ?_, exists_settles_of_unifyUnder_eq_ok unified⟩
  intro hcompletes hcompletes'
  apply hiff.mpr
  intro s' e es hsteps
  have hstart : ∀ e ∈ [Equation.mk t u], e.Completed s₀ :=
    List.forall_mem_singleton.mpr ⟨hcompletes, hcompletes'⟩
  exact (Steps.completed hsteps hstart e List.mem_cons_self).not_closesCircle

section Example

/-- The bindings `z → y` and `y → f(x)`. -/
def chained : Substitution :=
  (Substitution.single "z" (.var "y")).insert "y" (.compound "f" [.var "x"])

theorem acyclic_chained : chained.Acyclic :=
  Substitution.acyclic_of_rank (fun v => ["x", "y", "z"].idxOf v) (by decide)

theorem aritiesMatch_chained (v : String) (b : Term) (hv : chained.get? v = some b) :
    b.aritiesMatch = true := by
  have hall : ∀ p ∈ chained.toList, p.2.aritiesMatch = true := by decide
  exact hall (v, b) (SortedMap.get?_eq_some_iff.mp hv)

/-- The bindings `x → m`, `y → f(m)` and `z → y`. -/
def lengthened : Substitution :=
  ((Substitution.single "x" (.var "m")).insert "y" (.compound "f" [.var "m"])).insert "z" (.var "y")

/-- Under `z → y` and `y → f(x)`, the terms `g(z)` and `g(f(m))` bind `x` to `m`. One application
does not complete `g(z)`; two make the terms equal. -/
theorem unifyUnder_acyclic_unless_circle_chained :
    chained.Acyclic ∧
    unifyUnder chained (.compound "g" [.var "z"]) (.compound "g" [.compound "f" [.var "m"]]) =
      .ok lengthened ∧
    lengthened.Acyclic ∧
    ∃ e, lengthened.Settles (.compound "g" [.var "z"]) e ∧
      lengthened.Settles (.compound "g" [.compound "f" [.var "m"]]) e := by
  have hunified : unifyUnder chained (.compound "g" [.var "z"])
      (.compound "g" [.compound "f" [.var "m"]]) = .ok lengthened := rfl
  have hacyclic : lengthened.Acyclic :=
    Substitution.acyclic_of_rank (fun v => ["m", "x", "y", "z"].idxOf v) (by decide)
  obtain ⟨e, e', he, he', -, hequal⟩ :=
    (unifyUnder_acyclic_unless_circle acyclic_chained hunified).2.2 hacyclic
  refine ⟨acyclic_chained, hunified, hacyclic, e, he, ?_⟩
  rwa [hequal rfl rfl aritiesMatch_chained]

/-- Unifying under acyclic bindings can close a circle: the same bindings, with the terms `x` and
`z`, give `x` the binding `f(x)`. -/
theorem exists_unifyUnder_closes_circle :
    ¬ ∀ (s₀ s : Substitution) (t u : Term), s₀.Acyclic → t.aritiesMatch = true →
      u.aritiesMatch = true → (∀ v b, s₀.get? v = some b → b.aritiesMatch = true) →
      unifyUnder s₀ t u = .ok s → s.Acyclic ∧ ∃ e, s.Settles t e ∧ s.Settles u e := by
  intro h
  have hacyclic := (h chained _ (.var "x") (.var "z") acyclic_chained rfl rfl
    aritiesMatch_chained rfl).1
  exact hacyclic "x" (Relation.TransGen.single ⟨.compound "f" [.var "x"], rfl, rfl⟩)

end Example

end Clausal
