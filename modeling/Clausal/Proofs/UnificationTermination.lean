import Clausal.Proofs.MostGeneral

/-!
# Unification comes to an end

Under idempotent bindings every move makes the equations smaller once the bindings are put in, and
each new binding takes a variable of the problem that was free. So the answer `endless` is never
given, and there is no endless sequence of steps either.
-/

namespace Clausal

set_option autoImplicit false

namespace Term

theorem size_le_sizes {t : Term} {ts : List Term} (h : t ∈ ts) : t.size ≤ sizes ts := by
  induction ts with
  | nil => cases h
  | cons u ts ih =>
    rw [sizes]
    rcases List.mem_cons.mp h with rfl | h
    · omega
    · have := ih h
      omega

theorem sizes_map_le {g : Term → Term} {k : Nat} {ts : List Term}
    (h : ∀ t ∈ ts, (g t).size ≤ t.size * k) : sizes (ts.map g) ≤ sizes ts * k := by
  induction ts with
  | nil => simp [sizes]
  | cons t ts ih =>
    obtain ⟨ht, hts⟩ := List.forall_mem_cons.mp h
    have := ih hts
    rw [List.map_cons, sizes, sizes, Nat.add_mul]
    omega

end Term

namespace Substitution

theorem size_value_le (s : Substitution) (v : String) :
    (s.value v).size ≤ Term.sizes s.bindings.values + 1 := by
  cases hv : s.get? v with
  | none =>
    rw [value_of_get?_eq_none hv, Term.size]
    omega
  | some b =>
    have hmem : b ∈ s.bindings.values :=
      List.mem_map_of_mem (SortedMap.get?_eq_some_iff.mp hv)
    have := Term.size_le_sizes hmem
    rw [value_of_get?_eq_some hv]
    omega

end Substitution

theorem Term.size_subst_le (s : Substitution) (t : Term) :
    (t.subst s).size ≤ t.size * (sizes s.bindings.values + 1) := by
  induction t with
  | const n => simp [size]
  | var n =>
    rw [subst_var, size, Nat.one_mul]
    exact s.size_value_le n
  | app f ts ih =>
    have := sizes_map_le ih
    rw [subst_app, size, size, Nat.add_mul]
    omega

namespace Unification

def Equation.subst (s : Substitution) (e : Equation) : Equation := ⟨e.left.subst s, e.right.subst s⟩

def load (s : Substitution) (es : List Equation) : Nat := weight (es.map (Equation.subst s))

theorem weight_append (es ds : List Equation) : weight (es ++ ds) = weight es + weight ds := by
  induction es with
  | nil => simp [weight]
  | cons e es ih =>
    rw [List.cons_append, weight, weight, ih]
    omega

theorem weight_zipWith {ts us : List Term} (h : ts.length = us.length) :
    weight (List.zipWith Equation.mk ts us) = Term.sizes ts + Term.sizes us := by
  induction ts generalizing us with
  | nil =>
    cases us with
    | nil => rfl
    | cons u us => cases h
  | cons t ts ih =>
    cases us with
    | nil => cases h
    | cons u us =>
      have := ih (Nat.succ.inj h)
      rw [List.zipWith_cons_cons, weight, Term.sizes, Term.sizes]
      dsimp only
      omega

theorem map_subst_zipWith (s : Substitution) (ts us : List Term) :
    (List.zipWith Equation.mk ts us).map (Equation.subst s) =
      List.zipWith Equation.mk (ts.map (Term.subst s)) (us.map (Term.subst s)) := by
  rw [List.map_zipWith, List.zipWith_map]
  rfl

theorem load_cons (s : Substitution) (e : Equation) (es : List Equation) :
    load s (e :: es) = (e.left.subst s).size + (e.right.subst s).size + load s es := rfl

theorem load_le (s : Substitution) (es : List Equation) :
    load s es ≤ weight es * (Term.sizes s.bindings.values + 1) := by
  induction es with
  | nil => simp [load, weight]
  | cons e es ih =>
    have hleft := e.left.size_subst_le s
    have hright := e.right.size_subst_le s
    rw [load_cons, weight, Nat.add_mul, Nat.add_mul]
    omega

theorem load_lt_allowance (s : Substitution) (es : List Equation) :
    load s es < allowance s es := by
  have hload := load_le s es
  unfold allowance
  generalize weight es = w at *
  generalize Term.sizes s.bindings.values = k at *
  have hsquare : w * (k + 1) < (w + k + 2) * (w + k + 2) := by
    apply Nat.lt_of_le_of_lt (Nat.mul_le_mul (Nat.le_add_right w (k + 1)) (Nat.le_refl (k + 1)))
    apply Nat.mul_lt_mul_of_le_of_lt <;> omega
  have hpow := Nat.pow_le_pow_right (Nat.succ_pos (w + k + 1)) (Nat.le_add_left 2 (s.size + 1))
  rw [Nat.pow_two] at hpow
  exact Nat.lt_of_le_of_lt hload (Nat.lt_of_lt_of_le hsquare hpow)

section Idempotent

variable {s : Substitution} (hs : s.Idempotent)
include hs

theorem map_subst_of_subst_eq_app {t : Term} {f : Symbol} {ts : List Term}
    (h : t.subst s = .app f ts) : ts.map (Term.subst s) = ts := by
  have htwice := hs.subst_subst t
  rw [h, Term.subst_app] at htwice
  exact (Term.app.inj htwice).2

theorem load_split_lt {e : Equation} {es' : List Equation} (h : move s e = .split es')
    (es : List Equation) : load s (es' ++ es) < load s (e :: es) := by
  cases reason_of_move_eq h with
  | @split f g ts us hl hr hname hlength =>
    -- the arguments carry the bindings already, so putting them in again leaves their sizes
    rw [load_cons, hl, hr, load, List.map_append, weight_append, map_subst_zipWith,
      map_subst_of_subst_eq_app hs hl, map_subst_of_subst_eq_app hs hr, weight_zipWith hlength,
      Term.size, Term.size, ← load]
    omega

theorem settle_ne_unfinished {n : Nat} {es : List Equation} (hn : load s es < n) :
    settle s n es ≠ .unfinished := by
  induction n generalizing es with
  | zero => omega
  | succ n ih =>
    cases es with
    | nil => simp [settle]
    | cons e es =>
      unfold settle
      split
      · apply ih
        have := (e.left.subst s).size_pos
        rw [load_cons] at hn
        omega
      · exact absurd ‹_› ((completed_of_idempotent hs _).move_ne_follow _)
      · apply ih
        have := load_split_lt hs ‹_› es
        omega
      · simp
      · simp

end Idempotent

theorem get?_of_settle_eq_assign {s : Substitution} {n : Nat} {es remaining : List Equation}
    {v : String} {t : Term} (h : settle s n es = .assign v t remaining) : s.get? v = none := by
  induction n generalizing es with
  | zero => cases h
  | succ n ih =>
    cases es with
    | nil => cases h
    | cons e es =>
      unfold settle at h
      split at h
      · exact ih h
      · exact ih h
      · exact ih h
      · cases h
        exact get?_of_move_eq_assign ‹_›
      · cases h

theorem ne_endless_of_move_eq_fail {s : Substitution} {e : Equation} {c : Conflict}
    (h : move s e = .fail c) : c ≠ .endless := by
  cases reason_of_move_eq h <;> simp

def free (s : Substitution) (vs : List String) : List String := vs.filter fun v => !s.binds v

theorem length_free_bind_lt {s : Substitution} {v : String} {t : Term} {vs : List String}
    (hv : s.get? v = none) (hmem : v ∈ vs) :
    (free (s.bind v t) vs).length < (free s vs).length := by
  have hsub : free (s.bind v t) vs = (free s vs).filter fun w => w ≠ v := by
    rw [free, free, List.filter_filter]
    apply List.filter_congr
    intro w _
    rw [Bool.eq_iff_iff, Bool.not_eq_true', Bool.and_eq_true, Bool.not_eq_true',
      Bool.eq_false_iff, Bool.eq_false_iff, ne_eq, Substitution.binds_bind]
    simp
  rw [hsub]
  apply List.length_filter_lt_length_iff_exists.mpr
  refine ⟨v, List.mem_filter.mpr ⟨hmem, ?_⟩, by simp⟩
  rw [Substitution.binds_eq_false_iff.mpr hv]
  rfl

abbrev Problem.Within (vs : List String) (p : Problem) : Prop :=
  p.All fun t => ∀ w, t.mentions w = true → w ∈ vs

theorem mem_of_newly_bound {vs : List String} {p q : Problem} (h : Steps p q)
    (hvs : p.Within vs) {v : String} (hp : p.bindings.get? v = none)
    (hq : q.bindings.binds v = true) : v ∈ vs := by
  rcases Steps.binds h (hereditary_mentions (· ∈ vs)) hvs hq with hv | hv
  · rw [Substitution.binds_eq_false_iff.mpr hp] at hv
    cases hv
  · exact hv v ((Term.mentions_var v v).mpr rfl)

theorem solve_ne_endless {n : Nat} {s : Substitution} {es : List Equation} {vs : List String}
    (hs : s.Idempotent) (hvs : Problem.Within vs ⟨s, es⟩) (hn : (free s vs).length < n) :
    solve n s es ≠ .error .endless := by
  induction n generalizing s es with
  | zero => omega
  | succ n ih =>
    have hreached := reached_settle s (allowance s es) es
    have hends := settle_ne_unfinished hs (load_lt_allowance s es)
    unfold solve
    cases hsettle : settle s (allowance s es) es with
    | solved => simp
    | assign v t remaining =>
      rw [hsettle] at hreached
      have hv := get?_of_settle_eq_assign hsettle
      have hmem := mem_of_newly_bound hreached hvs hv (Substitution.binds_bind.mpr (Or.inl rfl))
      have hfree : (free (s.bind v t) vs).length < n :=
        Nat.lt_of_lt_of_le (length_free_bind_lt hv hmem) (Nat.le_of_lt_succ hn)
      exact ih (Steps.idempotent hreached hs)
        (Steps.all hreached (hereditary_mentions (· ∈ vs)) hvs) hfree
    | failed c =>
      rw [hsettle] at hreached
      obtain ⟨e, rest, -, hfail⟩ := hreached
      simpa using ne_endless_of_move_eq_fail hfail
    | unfinished => exact absurd hsettle hends

theorem within_candidates (s : Substitution) (es : List Equation) :
    Problem.Within (candidates s es) ⟨s, es⟩ where
  bound := by
    intro v b hv w hw
    have hmem : (v, b) ∈ s.toList := SortedMap.get?_eq_some_iff.mp hv
    apply List.mem_append_right
    exact List.mem_flatMap.mpr ⟨(v, b), hmem, (Term.mem_occurrences_iff b).mpr hw⟩
  sides := by
    intro e he
    have inside {t : Term} (ht : t.occurrences ⊆ e.left.occurrences ++ e.right.occurrences) :
        ∀ w, t.mentions w = true → w ∈ candidates s es := by
      intro w hw
      apply List.mem_append_left
      exact List.mem_flatMap.mpr ⟨e, he, ht ((Term.mem_occurrences_iff t).mpr hw)⟩
    exact ⟨inside (List.subset_append_left _ _), inside (List.subset_append_right _ _)⟩

theorem steps_of_solve_eq_error {n : Nat} {s : Substitution} {es : List Equation} {c : Conflict}
    (h : solve n s es = .error c) (hc : c ≠ .endless) :
    ∃ s' e rest, Steps ⟨s, es⟩ ⟨s', e :: rest⟩ ∧ move s' e = .fail c := by
  induction n generalizing s es with
  | zero =>
    cases h
    exact absurd rfl hc
  | succ n ih =>
    have hreached := reached_settle s (allowance s es) es
    unfold solve at h
    cases hsettle : settle s (allowance s es) es with
    | solved =>
      rw [hsettle] at h
      cases h
    | assign v t remaining =>
      rw [hsettle] at h hreached
      obtain ⟨s', e, rest, hsteps, hfail⟩ := ih h
      exact ⟨s', e, rest, Relation.ReflTransGen.trans hreached hsteps, hfail⟩
    | failed c' =>
      rw [hsettle] at h hreached
      cases h
      obtain ⟨e, rest, hsteps, hfail⟩ := hreached
      exact ⟨s, e, rest, hsteps, hfail⟩
    | unfinished =>
      rw [hsettle] at h
      cases h
      exact absurd rfl hc

/-- The listed variables that are still free, and then the weight of the equations with the
bindings put in. -/
def Problem.measure (vs : List String) (p : Problem) : Nat × Nat :=
  ((free p.bindings vs).length, load p.bindings p.equations)

theorem Step.measure_lt {vs : List String} {p q : Problem} (h : Step p q)
    (hp : p.bindings.Idempotent) (hvs : p.Within vs) :
    Prod.Lex (· < ·) (· < ·) (q.measure vs) (p.measure vs) := by
  cases h with
  | @drop s e es hm =>
    apply Prod.Lex.right
    have := (e.left.subst s).size_pos
    dsimp only
    rw [load_cons]
    omega
  | follow hm => exact absurd hm ((completed_of_idempotent hp _).move_ne_follow _)
  | @split s e es es' hm => exact Prod.Lex.right _ (load_split_lt hp hm es)
  | @assign s e es v t hm =>
    -- the equations may have grown, but a listed variable is used up
    have hv := get?_of_move_eq_assign hm
    have hmem : v ∈ vs := mem_of_newly_bound (Relation.ReflTransGen.single (.assign hm)) hvs hv
      (Substitution.binds_bind.mpr (Or.inl rfl))
    exact Prod.Lex.left _ _ (length_free_bind_lt hv hmem)

/-- No endless sequence of steps starts from idempotent bindings. -/
theorem acc_of_idempotent {vs : List String} {p : Problem} (hp : p.bindings.Idempotent)
    (hvs : p.Within vs) : Acc (fun q p => Step p q) p := by
  have hwf : WellFounded (InvImage (Prod.Lex (· < ·) (· < ·)) (Problem.measure vs)) :=
    InvImage.wf _ (Prod.lex ⟨_, Nat.lt_wfRel.wf⟩ ⟨_, Nat.lt_wfRel.wf⟩).wf
  induction p using hwf.induction with
  | h p ih =>
    apply Acc.intro
    intro q hstep
    exact ih q (hstep.measure_lt hp hvs) (hstep.idempotent hp)
      (hstep.all (hereditary_mentions (· ∈ vs)) hvs)

end Unification

theorem unifyUnder_ne_endless {s : Substitution} (hs : s.Idempotent) (t u : Term) :
    unifyUnder s t u ≠ .error .endless := by
  apply Unification.solve_ne_endless hs (Unification.within_candidates s _)
  exact Nat.lt_succ_of_le (List.length_filter_le _ _)

/-- A unification that fails comes to an equation whose move fails. -/
theorem steps_of_unifyUnder_eq_error {s : Substitution} {t u : Term} {c : Conflict}
    (hs : s.Idempotent) (h : unifyUnder s t u = .error c) :
    ∃ s' e rest, Unification.Steps ⟨s, [⟨t, u⟩]⟩ ⟨s', e :: rest⟩ ∧
      Unification.move s' e = .fail c := by
  apply Unification.steps_of_solve_eq_error h
  rintro rfl
  exact unifyUnder_ne_endless hs t u h

open Unification

/-- Unifying under an idempotent substitution comes to an end: every sequence of steps is finite,
none of them follows a binding, and the answer is the one that the last of them leads to. -/
theorem unifyUnder_ends {s₀ : Substitution} (idempotent : s₀.Idempotent) (t u : Term) :
    Acc (fun q p => Unification.Step p q) ⟨s₀, [⟨t, u⟩]⟩ ∧
    (∀ s e es, Steps ⟨s₀, [⟨t, u⟩]⟩ ⟨s, e :: es⟩ → ∀ e', move s e ≠ .follow e') ∧
    ((∃ s, Steps ⟨s₀, [⟨t, u⟩]⟩ ⟨s, []⟩ ∧ unifyUnder s₀ t u = .ok s) ∨
      ∃ s e es c, Steps ⟨s₀, [⟨t, u⟩]⟩ ⟨s, e :: es⟩ ∧ move s e = .fail c ∧ c ≠ .endless ∧
        unifyUnder s₀ t u = .error c) := by
  refine ⟨acc_of_idempotent idempotent (within_candidates s₀ _), ?_, ?_⟩
  · intro s e es hsteps e'
    have hs : s.Idempotent := Steps.idempotent hsteps idempotent
    exact (completed_of_idempotent hs e).move_ne_follow e'
  · cases h : unifyUnder s₀ t u with
    | ok s => exact Or.inl ⟨s, steps_of_unifyUnder_eq_ok h, rfl⟩
    | error c =>
      obtain ⟨s, e, es, hsteps, hfail⟩ := steps_of_unifyUnder_eq_error idempotent h
      exact Or.inr ⟨s, e, es, c, hsteps, hfail, ne_endless_of_move_eq_fail hfail, rfl⟩

/-- Under `x → g(y, y)`, the terms `f(x, y)` and `f(z, g(m, m))`: first `z` takes the value of `x`,
then `y` is bound and both of them double. -/
def doubling : Problem where
  bindings := .single "x" (.compound "g" [.var "y", .var "y"])
  equations := [⟨.compound "f" [.var "x", .var "y"],
    .compound "f" [.var "z", .compound "g" [.var "m", .var "m"]]⟩]

theorem unifyUnder_ends_doubling :
    doubling.bindings.Idempotent ∧ Acc (fun q p => Unification.Step p q) doubling ∧
    ∀ s e es, Steps doubling ⟨s, e :: es⟩ → ∀ e', move s e ≠ .follow e' := by
  have hidempotent : doubling.bindings.Idempotent := Substitution.idempotent_single rfl
  have hends := unifyUnder_ends hidempotent (.compound "f" [.var "x", .var "y"])
    (.compound "f" [.var "z", .compound "g" [.var "m", .var "m"]])
  exact ⟨hidempotent, hends.1, hends.2.1⟩

end Clausal
