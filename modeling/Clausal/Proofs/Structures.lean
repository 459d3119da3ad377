import Clausal.Proofs.MostGeneral
import Clausal.Proofs.Resolvents

/-!
# Structures and truth

A structure gives every constant an element, every function name a function of lists of elements,
and tells which elements are true; an atom is true when its value is. Resolvents are valid also
when the clauses share variables: the unifier is an assignment for both at once.
-/

namespace Clausal

set_option autoImplicit false

universe u

/-- What constants and function names denote, and which elements are true. -/
structure Structure where
  Carrier : Type u
  nonempty : Nonempty Carrier
  constant : String → Carrier
  function : String → List Carrier → Carrier
  isTrue : Carrier → Prop

namespace Structure

variable (M : Structure.{u})

abbrev Assignment : Type u := String → M.Carrier

mutual

def eval (a : M.Assignment) : Term → M.Carrier
  | .const n => M.constant n
  | .var n => a n
  | .app f ts => M.function f.name (evalArgs a ts)

def evalArgs (a : M.Assignment) : List Term → List M.Carrier
  | [] => []
  | t :: ts => eval a t :: evalArgs a ts

end

def Satisfies (a : M.Assignment) (l : Literal) : Prop :=
  M.isTrue (M.eval a l.term) ↔ l.positive = true

def Holds (a : M.Assignment) (c : Clause) : Prop := ∃ l, l ∈ c ∧ M.Satisfies a l

def Valid (c : Clause) : Prop := ∀ a : M.Assignment, M.Holds a c

theorem evalArgs_eq_map (a : M.Assignment) (ts : List Term) :
    M.evalArgs a ts = ts.map (M.eval a) := by
  induction ts with
  | nil => rfl
  | cons t ts ih => simp [evalArgs, ih]

@[simp] theorem eval_app (a : M.Assignment) (f : Symbol) (ts : List Term) :
    M.eval a (.app f ts) = M.function f.name (ts.map (M.eval a)) := by
  rw [eval, evalArgs_eq_map]

variable {M}

/-- Substituting into a term is changing the assignment. -/
theorem eval_subst (a : M.Assignment) (s : Substitution) (t : Term) :
    M.eval a (t.subst s) = M.eval (fun v => M.eval a (s.value v)) t := by
  induction t with
  | const n => rfl
  | var n => rfl
  | app f ts ih =>
    rw [Term.subst_app, eval_app, eval_app, List.map_map]
    exact congrArg _ (List.map_congr_left ih)

theorem eval_normalize (a : M.Assignment) (t : Term) : M.eval a t.normalize = M.eval a t := by
  induction t with
  | const n => rfl
  | var n => rfl
  | app f ts ih =>
    rw [Term.normalize_app, eval_app, eval_app, List.map_map]
    exact congrArg _ (List.map_congr_left ih)

theorem eval_of_isGround (a b : M.Assignment) {t : Term} (h : t.isGround = true) :
    M.eval a t = M.eval b t := by
  induction t with
  | const n => rfl
  | var n => simp [Term.isGround] at h
  | app f ts ih =>
    have hts := Term.areGround_iff_forall.mp h
    rw [eval_app, eval_app]
    exact congrArg _ (List.map_congr_left fun t ht => ih t ht (hts t ht))

theorem satisfies_subst {a : M.Assignment} {s : Substitution} {l : Literal} :
    M.Satisfies a (l.subst s) ↔ M.Satisfies (fun v => M.eval a (s.value v)) l := by
  unfold Satisfies Literal.subst
  rw [eval_subst]

theorem satisfies_complement {a : M.Assignment} {l : Literal} :
    M.Satisfies a l.complement ↔ ¬ M.Satisfies a l := by
  unfold Satisfies Literal.complement
  cases l.positive <;> simp

theorem satisfies_of_isGround {a b : M.Assignment} {l : Literal} (h : l.isGround = true)
    (ha : M.Satisfies a l) : M.Satisfies b l := by
  unfold Satisfies at *
  rwa [eval_of_isGround b a h]

theorem not_valid_empty : ¬ M.Valid .empty := by
  intro h
  obtain ⟨x⟩ := M.nonempty
  obtain ⟨l, hl, -⟩ := h (fun _ => x)
  exact Clause.not_mem_empty l hl

theorem valid_unit {l : Literal} : M.Valid (.unit l) ↔ ∀ a, M.Satisfies a l := by
  simp [Valid, Holds]

/-- Two literals of different signs whose terms have one value are not both satisfied. -/
theorem not_satisfies_both {a : M.Assignment} {l m : Literal} (hsign : l.isOpposite m = true)
    (hvalue : M.eval a l.term = M.eval a m.term) (hl : M.Satisfies a l) : ¬ M.Satisfies a m := by
  unfold Satisfies at *
  rw [← hvalue, hl]
  cases hlp : l.positive <;> cases hmp : m.positive <;> simp_all [Literal.isOpposite]

/-- The rule of resolution is sound. -/
theorem valid_conclude {c d : Clause} {l m : Literal} {s : Substitution}
    (hsign : l.isOpposite m = true) (hs : unify l.term m.term = .ok s) (hc : M.Valid c)
    (hd : M.Valid d) : M.Valid (Resolution.conclude c d l m s) := by
  intro a
  have hterms := normalize_subst_of_unify_eq_ok hs
  -- both clauses are read under the assignment that the unifier makes of `a`
  let b : M.Assignment := fun v => M.eval a (s.value v)
  have hvalue : M.eval b l.term = M.eval b m.term := by
    rw [← eval_subst, ← eval_subst, ← eval_normalize, hterms, eval_normalize]
  have keep {j : Literal} (hj : (j ∈ c ∧ j ≠ l) ∨ (j ∈ d ∧ j ≠ m)) (hb : M.Satisfies b j) :
      M.Holds a (Resolution.conclude c d l m s) :=
    ⟨j.subst s, Resolution.mem_conclude.mpr ⟨j, hj, rfl⟩, satisfies_subst.mpr hb⟩
  obtain ⟨j, hj, hbj⟩ := hc b
  by_cases hjl : j = l
  · obtain ⟨k, hk, hbk⟩ := hd b
    by_cases hkm : k = m
    · subst hjl hkm
      exact absurd hbk (not_satisfies_both hsign hvalue hbj)
    · exact keep (Or.inr ⟨hk, hkm⟩) hbk
  · exact keep (Or.inl ⟨hj, hjl⟩) hbj

theorem valid_of_mem_resolvents {c d : Clause} {r : Resolvent} (h : r ∈ resolvents c d)
    (hc : M.Valid c) (hd : M.Valid d) : M.Valid r.conclusion := by
  obtain ⟨l, hl, m, hm, hsign, s, hs, rfl⟩ := mem_resolvents_iff.mp h
  exact valid_conclude hsign hs hc hd

end Structure

end Clausal
