import Clausal.Proofs.Composition

/-!
# Variables of terms and of bindings

Occurrence is a relation between a variable and a term, and every function that goes through the
variables of a term describes it. Binding a variable that is not bound yet is composition with that
one binding; it keeps the bindings idempotent unless the variable comes to occur in its own term.
-/

namespace Clausal

set_option autoImplicit false

section Occurrence

inductive Term.Occurs (v : String) : Term → Prop where
  | here : Occurs v (var v)
  | inside {f : Symbol} {t : Term} {ts : List Term} : t ∈ ts → Occurs v t → Occurs v (app f ts)

namespace Term

theorem mentions_iff_occurs {v : String} {t : Term} : t.mentions v = true ↔ t.Occurs v := by
  constructor
  · intro h
    induction t with
    | const n => simp at h
    | var n =>
      rw [mentions_var] at h
      rw [h]
      exact .here
    | app f ts ih =>
      obtain ⟨t, ht, htv⟩ := (mentions_app v f ts).mp h
      exact .inside ht (ih t ht htv)
  · intro h
    induction h with
    | here => exact (mentions_var v v).mpr rfl
    | inside ht _ ih => exact (mentions_app v _ _).mpr ⟨_, ht, ih⟩

theorem isGround_iff_vars {t : Term} : t.isGround = true ↔ t.vars.isEmpty = true := by
  rw [isGround_iff, SortedSet.isEmpty_iff]
  constructor
  · intro h
    rw [vars, h]
    rfl
  · intro h
    refine List.eq_nil_iff_forall_not_mem.mpr fun v hv => ?_
    have hmem : v ∈ t.vars := mem_vars.mpr ((mem_occurrences_iff t).mp hv)
    rw [h] at hmem
    exact SortedSet.not_mem_empty v hmem

theorem vars_subst (s : Substitution) (t : Term) :
    (t.subst s).vars = .ofList (t.vars.toList.flatMap fun v => (s.value v).vars.toList) := by
  apply SortedSet.eq_of_mem_iff
  intro w
  rw [mem_vars, mentions_subst, SortedSet.mem_ofList, List.mem_flatMap]
  simp only [SortedSet.mem_toList, mem_vars]

/-- The variables of a term are those that occur in it, whether they are collected or looked for,
and a ground term has none. They are what a substitution acts on: two substitutions make the same
of the term exactly when they give its variables the same, and the variables of the instance
are those of the terms that are put in. -/
theorem traversals_agree (t : Term) (s r : Substitution) :
    (t.subst s = t.subst r ↔ ∀ v ∈ t.vars, s.value v = r.value v) ∧
    (∀ v, v ∈ t.vars ↔ t.mentions v = true) ∧
    (∀ v, t.mentions v = true ↔ t.Occurs v) ∧
    (t.isGround = true ↔ t.vars.isEmpty = true) ∧
    (t.subst s).vars = .ofList (t.vars.toList.flatMap fun v => (s.value v).vars.toList) := by
  refine ⟨?_, fun v => mem_vars, fun v => mentions_iff_occurs, isGround_iff_vars, vars_subst s t⟩
  rw [subst_eq_subst_iff]
  exact forall_congr' fun v => by rw [mem_vars]

end Term

end Occurrence

section Binding

namespace Substitution

theorem bind_eq_compose {s : Substitution} {v : String} (hv : s.binds v = false) (t : Term) :
    s.bind v t = s.compose (single v (t.subst s)) := by
  apply eq_of_get?_eq
  intro w
  rw [get?_bind, get?_compose, get?_single]
  by_cases hw : w = v
  · rw [if_pos hw, if_pos hw, hw, binds_eq_false_iff.mp hv]
    rfl
  · rw [if_neg hw, if_neg hw, Option.or_none]

/-- Where no bound variable occurs in a bound term, binding a new variable to a term that does
not come to mention it is composition with this binding, adds the variable to the bound ones, and
leaves no bound variable in a bound term. So applying the result twice is applying it once. -/
theorem bind_composes_idempotently {s : Substitution} {v : String} {t : Term} (hs : s.Idempotent)
    (hv : s.binds v = false) (ht : (t.subst s).mentions v = false) :
    s.bind v t = s.compose (single v (t.subst s)) ∧
    (∀ w, (s.bind v t).binds w = true ↔ w = v ∨ s.binds w = true) ∧
    (s.bind v t).Idempotent ∧
    ∀ u : Term, (u.subst (s.bind v t)).subst (s.bind v t) = u.subst (s.bind v t) := by
  have hbind := hs.bind ht
  exact ⟨bind_eq_compose hv t, fun w => binds_bind, hbind, hbind.subst_subst⟩

section Example

/-- `x` is bound to `f(y)` and `z` to `A`. -/
def halfBound : Substitution := (single "x" (.compound "f" [.var "y"])).bind "z" (.const "A")

theorem idempotent_halfBound : halfBound.Idempotent :=
  (idempotent_single (by decide)).bind (by decide)

theorem bind_composes_idempotently_halfBound :
    halfBound.Idempotent ∧ halfBound.binds "y" = false ∧
    ((Term.compound "g" [.var "z", .var "m"]).subst halfBound).mentions "y" = false ∧
    halfBound.bind "y" (.compound "g" [.var "z", .var "m"]) =
      halfBound.compose (single "y" (.compound "g" [.const "A", .var "m"])) ∧
    (halfBound.bind "y" (.compound "g" [.var "z", .var "m"])).get? "x" =
      some (.compound "f" [.compound "g" [.const "A", .var "m"]]) ∧
    (halfBound.bind "y" (.compound "g" [.var "z", .var "m"])).Idempotent := by
  have hv : halfBound.binds "y" = false := by decide
  have ht : ((Term.compound "g" [.var "z", .var "m"]).subst halfBound).mentions "y" = false := by
    decide
  obtain ⟨hcompose, -, hidempotent, -⟩ := bind_composes_idempotently idempotent_halfBound hv ht
  exact ⟨idempotent_halfBound, hv, ht, hcompose, by decide, hidempotent⟩

end Example

end Substitution

end Binding

end Clausal
