import Clausal.Proofs.UnificationSteps

/-!
# Unifiers are idempotent and most general

Each fact about a successful unification is carried along the steps of its problem: solutions go
forward, and agreement up to declared arities goes backward.
-/

namespace Clausal.Unification

set_option autoImplicit false

theorem reason_of_move_eq {s : Substitution} {e : Equation} {m : Move} (h : move s e = m) :
    Reason s (e.left.subst s) (e.right.subst s) m :=
  h ▸ reason_move s e

theorem get?_of_move_eq_assign {s : Substitution} {e : Equation} {v : String} {t : Term}
    (h : move s e = .assign v t) : s.get? v = none := by
  cases reason_of_move_eq h with
  | assign hv _ _ => exact hv

namespace Faces

variable {t u w : Term} {v : String}

/-- Instances of the two sides have the same image exactly when those of `v` and `w` do. -/
theorem subst_iff (h : Faces t u v w) (f : Term → Term) (r : Substitution) :
    f (t.subst r) = f (u.subst r) ↔ f (r.value v) = f (w.subst r) := by
  rcases h with ⟨rfl, rfl⟩ | ⟨rfl, rfl⟩
  · exact Iff.rfl
  · exact eq_comm

theorem subst_eq {s : Substitution} (hs : s.Idempotent)
    (h : Faces (t.subst s) (u.subst s) v w) : w.subst s = w := by
  rcases h with ⟨-, rfl⟩ | ⟨-, rfl⟩
  · exact hs.subst_subst u
  · exact hs.subst_subst t

/-- What holds of both sides holds of the variable and of what it faces. -/
theorem both {Q : Term → Prop} (h : Faces t u v w) (ht : Q t) (hu : Q u) : Q (.var v) ∧ Q w := by
  rcases h with ⟨rfl, rfl⟩ | ⟨rfl, rfl⟩
  · exact ⟨ht, hu⟩
  · exact ⟨hu, ht⟩

end Faces

def Equation.Completed (s : Substitution) (e : Equation) : Prop :=
  s.Completes e.left ∧ s.Completes e.right

/-- What faces an unbound variable in a completed equation mentions unbound variables only. -/
theorem Equation.Completed.unbound {s : Substitution} {e : Equation} (he : e.Completed s)
    {v : String} {b : Term} (hf : Faces (e.left.subst s) (e.right.subst s) v b) :
    s.get? v = none ∧ ∀ w, b.mentions w = true → s.get? w = none := by
  have hboth := hf.both (Q := fun t => ∀ w, t.mentions w = true → s.get? w = none) he.1 he.2
  exact ⟨hboth.1 v ((Term.mentions_var v v).mpr rfl), hboth.2⟩

/-- A variable that is left after one application has no binding to follow. -/
theorem Equation.Completed.move_ne_follow {s : Substitution} {e : Equation} (he : e.Completed s)
    (e' : Equation) : move s e ≠ .follow e' := by
  intro h
  cases reason_of_move_eq h with
  | follow hv hf =>
    rw [(he.unbound hf).1] at hv
    cases hv

theorem completed_of_idempotent {s : Substitution} (hs : s.Idempotent) (e : Equation) :
    e.Completed s :=
  ⟨hs.completes e.left, hs.completes e.right⟩

theorem forall_mem_zipWith_iff (g : Term → Term) {ts us : List Term}
    (h : ts.length = us.length) :
    (∀ e ∈ List.zipWith Equation.mk ts us, g e.left = g e.right) ↔ ts.map g = us.map g := by
  induction ts generalizing us with
  | nil =>
    cases us with
    | nil => simp
    | cons u us => simp at h
  | cons t ts ih =>
    cases us with
    | nil => simp at h
    | cons u us =>
      have ht := ih (Nat.succ.inj h)
      simp only [List.zipWith_cons_cons, List.forall_mem_cons, List.map_cons, List.cons.injEq, ht]

theorem mem_of_mem_zipWith {e : Equation} {ts us : List Term}
    (h : e ∈ List.zipWith Equation.mk ts us) : e.left ∈ ts ∧ e.right ∈ us := by
  rw [← List.map_uncurry_zip_eq_zipWith] at h
  obtain ⟨⟨t, u⟩, hp, rfl⟩ := List.mem_map.mp h
  exact List.of_mem_zip hp

/-- A substitution that makes all equations true and has the bindings worked in. -/
structure Solution (r : Substitution) (p : Problem) : Prop where
  absorbs : r.Absorbs p.bindings
  holds : ∀ e ∈ p.equations, e.left.subst r = e.right.subst r

/-- As a solution, except that declared arities may differ between the two sides. -/
structure Agreement (r : Substitution) (p : Problem) : Prop where
  absorbs : r.Absorbs p.bindings
  agrees : ∀ e ∈ p.equations, (e.left.subst r).normalize = (e.right.subst r).normalize

/-- A step loses no solution. -/
theorem Step.solution {p q : Problem} {r : Substitution} (h : Step p q) (hr : Solution r p) :
    Solution r q := by
  obtain ⟨habs, hes⟩ := hr
  cases h with
  | @drop s e es hm => exact ⟨habs, fun e' he' => hes e' (List.mem_cons_of_mem e he')⟩
  | @follow s e e' es hm =>
    obtain ⟨he, hes⟩ := List.forall_mem_cons.mp hes
    rw [← habs.subst_subst e.left, ← habs.subst_subst e.right] at he
    cases reason_of_move_eq hm with
    | @follow v b w hv hf =>
      refine ⟨habs, List.forall_mem_cons.mpr ⟨?_, hes⟩⟩
      rw [← Substitution.absorbs_iff.mp habs v b hv]
      exact (hf.subst_iff id r).mp he
  | @split s e es es' hm =>
    obtain ⟨he, hes⟩ := List.forall_mem_cons.mp hes
    rw [← habs.subst_subst e.left, ← habs.subst_subst e.right] at he
    cases reason_of_move_eq hm with
    | @split f g ts us hl hr _ hlength =>
      refine ⟨habs, List.forall_mem_append.mpr ⟨?_, hes⟩⟩
      rw [hl, hr, Term.subst_app, Term.subst_app, Term.app.injEq] at he
      exact (forall_mem_zipWith_iff (Term.subst r) hlength).mpr he.2
  | @assign s e es v t hm =>
    obtain ⟨he, hes⟩ := List.forall_mem_cons.mp hes
    rw [← habs.subst_subst e.left, ← habs.subst_subst e.right] at he
    cases reason_of_move_eq hm with
    | assign hv _ hf => exact ⟨habs.bind hv ((hf.subst_iff id r).mp he), hes⟩

theorem Step.idempotent {p q : Problem} (h : Step p q) (hp : p.bindings.Idempotent) :
    q.bindings.Idempotent := by
  cases h with
  | drop hm => exact hp
  | follow hm => exact hp
  | split hm => exact hp
  | assign hm =>
    cases reason_of_move_eq hm with
    | assign _ ht hf => exact hp.bind (by rw [hf.subst_eq hp, ht])

/-- What makes the equations after a step agree makes those before it agree. -/
theorem Step.agreement {p q : Problem} {r : Substitution} (h : Step p q) (hr : Agreement r q) :
    Agreement r p := by
  obtain ⟨habs, hes⟩ := hr
  cases h with
  | @drop s e es hm =>
    refine ⟨habs, List.forall_mem_cons.mpr ⟨?_, hes⟩⟩
    cases reason_of_move_eq hm with
    | drop heq => rw [← habs.subst_subst e.left, heq, habs.subst_subst]
  | @follow s e e' es hm =>
    obtain ⟨he, hes⟩ := List.forall_mem_cons.mp hes
    refine ⟨habs, List.forall_mem_cons.mpr ⟨?_, hes⟩⟩
    rw [← habs.subst_subst e.left, ← habs.subst_subst e.right]
    cases reason_of_move_eq hm with
    | @follow v b w hv hf =>
      rw [← Substitution.absorbs_iff.mp habs v b hv] at he
      exact (hf.subst_iff Term.normalize r).mpr he
  | @split s e es es' hm =>
    obtain ⟨he, hes⟩ := List.forall_mem_append.mp hes
    refine ⟨habs, List.forall_mem_cons.mpr ⟨?_, hes⟩⟩
    rw [← habs.subst_subst e.left, ← habs.subst_subst e.right]
    cases reason_of_move_eq hm with
    | @split f g ts us hl hr hname hlength =>
      have hargs := (forall_mem_zipWith_iff (Term.normalize ∘ Term.subst r) hlength).mp he
      rw [hl, hr, Term.subst_app, Term.subst_app, Term.normalize_app, Term.normalize_app,
        List.map_map, List.map_map, hargs, hname, List.length_map, List.length_map, hlength]
  | @assign s e es v t hm =>
    cases reason_of_move_eq hm with
    | assign hv _ hf =>
      have hs : r.Absorbs s := habs.of_bind hv
      have hvalue : r.value v = t.subst r := by
        rw [← habs v, Substitution.value_bind_self, hs.subst_subst]
      refine ⟨hs, List.forall_mem_cons.mpr ⟨?_, hes⟩⟩
      rw [← hs.subst_subst e.left, ← hs.subst_subst e.right]
      exact (hf.subst_iff Term.normalize r).mpr (by rw [hvalue])

/-- A property of terms that passes to arguments, and to instances if it holds of the terms put
in. -/
structure Hereditary (Q : Term → Prop) : Prop where
  args : ∀ {f : Symbol} {ts : List Term}, Q (.app f ts) → ∀ t ∈ ts, Q t
  subst : ∀ {s : Substitution} {t : Term}, Q t → (∀ v b, s.get? v = some b → Q b) → Q (t.subst s)

structure Problem.All (Q : Term → Prop) (p : Problem) : Prop where
  bound : ∀ v b, p.bindings.get? v = some b → Q b
  sides : ∀ e ∈ p.equations, Q e.left ∧ Q e.right

theorem Step.all {Q : Term → Prop} (hQ : Hereditary Q) {p q : Problem} (h : Step p q)
    (hp : p.All Q) : q.All Q := by
  obtain ⟨hbound, hsides⟩ := hp
  cases h with
  | @drop s e es hm => exact ⟨hbound, fun e' he' => hsides e' (List.mem_cons_of_mem e he')⟩
  | @follow s e e' es hm =>
    obtain ⟨he, hes⟩ := List.forall_mem_cons.mp hsides
    cases reason_of_move_eq hm with
    | @follow v b w hv hf =>
      have hw := hf.both (hQ.subst he.1 hbound) (hQ.subst he.2 hbound)
      exact ⟨hbound, List.forall_mem_cons.mpr ⟨⟨hbound v b hv, hw.2⟩, hes⟩⟩
  | @split s e es es' hm =>
    obtain ⟨he, hes⟩ := List.forall_mem_cons.mp hsides
    cases reason_of_move_eq hm with
    | @split f g ts us hl hr _ _ =>
      refine ⟨hbound, List.forall_mem_append.mpr ⟨?_, hes⟩⟩
      intro e' he'
      obtain ⟨ht, hu⟩ := mem_of_mem_zipWith he'
      exact ⟨hQ.args (hl ▸ hQ.subst he.1 hbound) _ ht, hQ.args (hr ▸ hQ.subst he.2 hbound) _ hu⟩
  | @assign s e es v t hm =>
    obtain ⟨he, hes⟩ := List.forall_mem_cons.mp hsides
    cases reason_of_move_eq hm with
    | assign _ _ hf =>
      have ht : Q (t.subst s) :=
        hQ.subst (hf.both (hQ.subst he.1 hbound) (hQ.subst he.2 hbound)).2 hbound
      refine ⟨?_, hes⟩
      intro w b hw
      rw [Substitution.get?_bind] at hw
      split at hw
      · exact Option.some.inj hw ▸ ht
      · obtain ⟨c, hc, rfl⟩ := Option.map_eq_some_iff.mp hw
        refine hQ.subst (hbound w c hc) ?_
        intro x d hx
        rw [Substitution.get?_single] at hx
        split at hx
        · exact Option.some.inj hx ▸ ht
        · cases hx

/-- A variable that a step binds comes from the two sides of its equation. -/
theorem Step.binds {Q : Term → Prop} (hQ : Hereditary Q) {p q : Problem} (h : Step p q)
    (hp : p.All Q) {v : String} (hv : q.bindings.binds v = true) :
    p.bindings.binds v = true ∨ Q (.var v) := by
  cases h with
  | drop hm => exact Or.inl hv
  | follow hm => exact Or.inl hv
  | split hm => exact Or.inl hv
  | @assign s e es w t hm =>
    rcases Substitution.binds_bind.mp hv with rfl | hv
    · have he := hp.sides e List.mem_cons_self
      cases reason_of_move_eq hm with
      | assign _ _ hf =>
        exact Or.inr (hf.both (hQ.subst he.1 hp.bound) (hQ.subst he.2 hp.bound)).1
    · exact Or.inl hv

section Steps

variable {p q : Problem} (h : Steps p q)
include h

theorem Steps.solution {r : Substitution} (hr : Solution r p) : Solution r q := by
  induction h with
  | refl => exact hr
  | tail _ hstep ih => exact hstep.solution ih

theorem Steps.idempotent (hp : p.bindings.Idempotent) : q.bindings.Idempotent := by
  induction h with
  | refl => exact hp
  | tail _ hstep ih => exact hstep.idempotent ih

theorem Steps.agreement {r : Substitution} (hr : Agreement r q) : Agreement r p := by
  induction h with
  | refl => exact hr
  | tail _ hstep ih => exact ih (hstep.agreement hr)

theorem Steps.all {Q : Term → Prop} (hQ : Hereditary Q) (hp : p.All Q) : q.All Q := by
  induction h with
  | refl => exact hp
  | tail _ hstep ih => exact hstep.all hQ ih

theorem Steps.binds {Q : Term → Prop} (hQ : Hereditary Q) (hp : p.All Q) {v : String}
    (hv : q.bindings.binds v = true) : p.bindings.binds v = true ∨ Q (.var v) := by
  induction h with
  | refl => exact Or.inl hv
  | tail hsteps hstep ih =>
    rcases hstep.binds hQ (Steps.all hsteps hQ hp) hv with hv | hv
    · exact ih hv
    · exact Or.inr hv

end Steps

theorem hereditary_mentions (X : String → Prop) :
    Hereditary (fun t => ∀ w, t.mentions w = true → X w) where
  args := by
    intro f ts h t ht w hw
    exact h w ((Term.mentions_app w f ts).mpr ⟨t, ht, hw⟩)
  subst := by
    intro s t ht hs w hw
    obtain ⟨v, hv, hvw⟩ := Term.mentions_subst.mp hw
    refine Substitution.value_induction (Q := fun t => ∀ w, t.mentions w = true → X w) ?_ hs w hvw
    intro w hw
    exact (Term.mentions_var w v).mp hw ▸ ht v hv

theorem hereditary_aritiesMatch : Hereditary (fun t => t.aritiesMatch = true) where
  args := by
    intro f ts h
    exact ((Term.aritiesMatch_app f ts).mp h).2
  subst := Term.aritiesMatch_subst

end Clausal.Unification

namespace Clausal

open Unification

/-- A variable stands in one of two terms or in a bound term. -/
def Supplied (s : Substitution) (t u : Term) (v : String) : Prop :=
  t.mentions v = true ∨ u.mentions v = true ∨ ∃ w b, s.get? w = some b ∧ b.mentions v = true

section

variable {s₀ s : Substitution} {t u : Term}

/-- Whatever has the bindings of the result worked in makes the two terms agree. -/
theorem agreement_of_absorbs {r : Substitution} (unified : unifyUnder s₀ t u = .ok s)
    (hr : r.Absorbs s) : Agreement r ⟨s₀, [⟨t, u⟩]⟩ :=
  Steps.agreement (steps_of_unifyUnder_eq_ok unified) ⟨hr, by simp⟩

theorem agreement_of_unifyUnder_eq_ok (idempotent : s₀.Idempotent)
    (unified : unifyUnder s₀ t u = .ok s) : Agreement s ⟨s₀, [⟨t, u⟩]⟩ := by
  have hs : s.Idempotent := Steps.idempotent (steps_of_unifyUnder_eq_ok unified) idempotent
  exact agreement_of_absorbs unified hs.absorbs_self

theorem normalize_subst_of_unify_eq_ok (unified : unify t u = .ok s) :
    (t.subst s).normalize = (u.subst s).normalize :=
  (agreement_of_unifyUnder_eq_ok Substitution.idempotent_empty unified).agrees ⟨t, u⟩
    List.mem_cons_self

theorem all_of_unifyUnder_eq_ok {Q : Term → Prop} (hQ : Hereditary Q) (ht : Q t) (hu : Q u)
    (hbound : ∀ v b, s₀.get? v = some b → Q b) (unified : unifyUnder s₀ t u = .ok s) :
    (∀ v b, s.get? v = some b → Q b) ∧ ∀ v, s.binds v = true → s₀.binds v = true ∨ Q (.var v) := by
  have hsteps := steps_of_unifyUnder_eq_ok unified
  have hall : Problem.All Q ⟨s₀, [⟨t, u⟩]⟩ := ⟨hbound, by simpa using ⟨ht, hu⟩⟩
  exact ⟨(Steps.all hsteps hQ hall).bound, fun v hv => Steps.binds hsteps hQ hall hv⟩

theorem subst_eq_of_unifyUnder_eq_ok (idempotent : s₀.Idempotent) (ht : t.aritiesMatch = true)
    (hu : u.aritiesMatch = true) (hs₀ : ∀ v b, s₀.get? v = some b → b.aritiesMatch = true)
    (unified : unifyUnder s₀ t u = .ok s) : t.subst s = u.subst s := by
  have hmatch := (all_of_unifyUnder_eq_ok hereditary_aritiesMatch ht hu hs₀ unified).1
  apply Term.eq_of_normalize_eq (Term.aritiesMatch_subst ht hmatch)
    (Term.aritiesMatch_subst hu hmatch)
  exact (agreement_of_unifyUnder_eq_ok idempotent unified).agrees ⟨t, u⟩ List.mem_cons_self

end

/-- Unifying under an idempotent substitution gives an idempotent one that extends it, brings in
no other variables, makes the terms equal up to declared arities, and through which every other
way to make them equal passes. -/
theorem unifyUnder_mostGeneral {s₀ s : Substitution} {t u : Term} (idempotent : s₀.Idempotent)
    (unified : unifyUnder s₀ t u = .ok s) :
    s.Idempotent ∧
    (∀ e : Term, (e.subst s₀).subst s = e.subst s) ∧
    (∀ v, s.binds v = true → s₀.binds v = false → Supplied s₀ t u v) ∧
    (∀ v b w, s.get? v = some b → b.mentions w = true → Supplied s₀ t u w) ∧
    (t.subst s).normalize = (u.subst s).normalize ∧
    (t.aritiesMatch = true → u.aritiesMatch = true →
      (∀ v b, s₀.get? v = some b → b.aritiesMatch = true) → t.subst s = u.subst s) ∧
    ∀ r : Substitution, t.subst r = u.subst r →
      (∀ v b, s₀.get? v = some b → r.value v = b.subst r) →
      ∀ e : Term, (e.subst s).subst r = e.subst r := by
  have hsteps := steps_of_unifyUnder_eq_ok unified
  have hagree := agreement_of_unifyUnder_eq_ok idempotent unified
  have hnormal := hagree.agrees ⟨t, u⟩ List.mem_cons_self
  obtain ⟨hrange, hbinds⟩ := all_of_unifyUnder_eq_ok (hereditary_mentions (Supplied s₀ t u))
    (fun w hw => Or.inl hw) (fun w hw => Or.inr (Or.inl hw))
    (fun v b hv w hw => Or.inr (Or.inr ⟨v, b, hv, hw⟩)) unified
  refine ⟨Steps.idempotent hsteps idempotent, hagree.absorbs.subst_subst, ?_,
    fun v b w hv hw => hrange v b hv w hw, hnormal, ?_, ?_⟩
  · intro v hv hv₀
    rcases hbinds v hv with h | h
    · rw [hv₀] at h
      cases h
    · exact h v ((Term.mentions_var v v).mpr rfl)
  · intro ht hu hs₀
    have hmatch := (all_of_unifyUnder_eq_ok hereditary_aritiesMatch ht hu hs₀ unified).1
    rw [← Term.normalize_of_aritiesMatch (Term.aritiesMatch_subst ht hmatch), hnormal,
      Term.normalize_of_aritiesMatch (Term.aritiesMatch_subst hu hmatch)]
  · intro r hr hs₀ e
    have hsolution : Solution r ⟨s₀, [⟨t, u⟩]⟩ :=
      ⟨Substitution.absorbs_iff.mpr hs₀, by simpa using hr⟩
    exact (Steps.solution hsteps hsolution).absorbs.subst_subst e

/-- The bindings `x → g(B)`, `y → B` and `z → g(B)`. -/
def renewed : Substitution :=
  ((Substitution.single "x" (.compound "g" [.const "B"])).insert "y" (.const "B")).insert "z"
    (.compound "g" [.const "B"])

/-- Under `x → g(y)`, the terms `f(x, z)` and `f(g(B), x)` bind `y` and `z` and renew `x`. The
first `f` declares seven arguments, so the instances agree up to that only. -/
theorem unifyUnder_mostGeneral_renews_binding :
    (Substitution.single "x" (.compound "g" [.var "y"])).Idempotent ∧
    unifyUnder (.single "x" (.compound "g" [.var "y"]))
      (.app ⟨"f", 7⟩ [.var "x", .var "z"])
      (.compound "f" [.compound "g" [.const "B"], .var "x"]) = .ok renewed ∧
    renewed.Idempotent ∧
    ((Term.app ⟨"f", 7⟩ [.var "x", .var "z"]).subst renewed).normalize =
      ((Term.compound "f" [.compound "g" [.const "B"], .var "x"]).subst renewed).normalize := by
  refine ⟨?idempotent, ?unified, (unifyUnder_mostGeneral ?idempotent ?unified).1,
    (unifyUnder_mostGeneral ?idempotent ?unified).2.2.2.2.1⟩
  · exact Substitution.idempotent_single rfl
  · rfl

end Clausal
