import Clausal.Proofs.UnificationTermination

/-!
# Unification fails only where there is no unifier

Steps keep solutions, so it is enough that an equation whose move fails has none.
-/

namespace Clausal

set_option autoImplicit false

namespace Term

theorem size_subst_lt_of_mem {f : Symbol} {t : Term} {ts : List Term} (h : t ∈ ts)
    (r : Substitution) : (t.subst r).size < ((app f ts).subst r).size := by
  have hmem : t.subst r ∈ ts.map (subst r) := List.mem_map_of_mem h
  have := size_le_sizes hmem
  rw [subst_app, size]
  omega

theorem size_value_le_of_mentions {v : String} {t : Term} (h : t.mentions v = true)
    (r : Substitution) : (r.value v).size ≤ (t.subst r).size := by
  induction t with
  | const n => simp at h
  | var n =>
    rw [(mentions_var v n).mp h]
    exact Nat.le_refl _
  | app f ts ih =>
    obtain ⟨t, ht, htv⟩ := (mentions_app v f ts).mp h
    have := ih t ht htv
    have := size_subst_lt_of_mem (f := f) ht r
    omega

theorem size_value_lt_of_mentions {v : String} {t : Term} (h : t.mentions v = true)
    (hne : t ≠ .var v) (r : Substitution) : (r.value v).size < (t.subst r).size := by
  cases t with
  | const n => simp at h
  | var n => exact absurd (congrArg var ((mentions_var v n).mp h)) hne
  | app f ts =>
    obtain ⟨t, ht, htv⟩ := (mentions_app v f ts).mp h
    exact Nat.lt_of_le_of_lt (size_value_le_of_mentions htv r) (size_subst_lt_of_mem ht r)

theorem subst_ne_of_shapes {t u : Term} (r : Substitution) (hne : t ≠ u)
    (ht : t.isVariable = false) (hu : u.isVariable = false)
    (happ : ∀ f ts g us, ¬ (t = .app f ts ∧ u = .app g us)) : t.subst r ≠ u.subst r := by
  cases t with
  | var n => cases ht
  | const n =>
    cases u with
    | var m => cases hu
    | const m => exact hne
    | app g us => simp
  | app f ts =>
    cases u with
    | var m => cases hu
    | const m => simp
    | app g us => exact absurd ⟨rfl, rfl⟩ (happ f ts g us)

end Term

namespace Unification

theorem subst_ne_of_move_eq_fail {s r : Substitution} {e : Equation} {c : Conflict}
    (h : move s e = .fail c) (hr : r.Absorbs s) : e.left.subst r ≠ e.right.subst r := by
  rw [← hr.subst_subst e.left, ← hr.subst_subst e.right]
  cases reason_of_move_eq h with
  | @cyclic v w hv hw hne hf =>
    have hvar : w ≠ .var v := by
      rintro rfl
      rcases hf with ⟨ht, hu⟩ | ⟨hu, ht⟩
      · exact hne (ht.trans hu.symm)
      · exact hne (ht.trans hu.symm)
    intro heq
    have hvalue : r.value v = w.subst r := (hf.subst_iff id r).mp heq
    have := Term.size_value_lt_of_mentions hw hvar r
    rw [hvalue] at this
    omega
  | heads hleft hright hname =>
    rw [hleft, hright, Term.subst_app, Term.subst_app]
    intro heq
    exact hname (congrArg Symbol.name (Term.app.inj heq).1)
  | counts hleft hright _ hlength =>
    rw [hleft, hright, Term.subst_app, Term.subst_app]
    intro heq
    apply hlength
    simpa using congrArg List.length (Term.app.inj heq).2
  | shapes hne hleft hright happ => exact Term.subst_ne_of_shapes r hne hleft hright happ

end Unification

open Unification

/-- Two terms that some substitution makes equal, in keeping with the bindings there are, do
unify. -/
theorem exists_unifyUnder_eq_ok {s r : Substitution} {t u : Term} (hs : s.Idempotent)
    (hr : t.subst r = u.subst r) (habs : r.Absorbs s) : ∃ s', unifyUnder s t u = .ok s' := by
  cases h : unifyUnder s t u with
  | ok s' => exact ⟨s', rfl⟩
  | error c =>
    obtain ⟨s', e, rest, hsteps, hfail⟩ := steps_of_unifyUnder_eq_error hs h
    have hsolution : Solution r ⟨s, [⟨t, u⟩]⟩ := ⟨habs, by simpa using hr⟩
    obtain ⟨habs', hholds⟩ := Steps.solution hsteps hsolution
    exact absurd (hholds e List.mem_cons_self) (subst_ne_of_move_eq_fail hfail habs')

theorem exists_unifyUnder_swap {s : Substitution} {t u : Term} (hs : s.Idempotent)
    (ht : t.aritiesMatch = true) (hu : u.aritiesMatch = true)
    (hbound : ∀ v b, s.get? v = some b → b.aritiesMatch = true)
    (h : ∃ s', unifyUnder s t u = .ok s') : ∃ s', unifyUnder s u t = .ok s' := by
  obtain ⟨s', hs'⟩ := h
  apply exists_unifyUnder_eq_ok hs _ (agreement_of_unifyUnder_eq_ok hs hs').absorbs
  exact (subst_eq_of_unifyUnder_eq_ok hs ht hu hbound hs').symm

/-- Unifying under an idempotent substitution fails only if no substitution makes the terms equal
in keeping with the bindings there are. When symbols declare the arguments they have, it
succeeds for two terms exactly if it does for the same terms swapped. -/
theorem unifyUnder_fails_only_without_unifier {s₀ : Substitution} {t u : Term}
    (idempotent : s₀.Idempotent) :
    (∀ c, unifyUnder s₀ t u = .error c →
      ¬ ∃ r : Substitution, t.subst r = u.subst r ∧
        ∀ v b, s₀.get? v = some b → r.value v = b.subst r) ∧
    (t.aritiesMatch = true → u.aritiesMatch = true →
      (∀ v b, s₀.get? v = some b → b.aritiesMatch = true) →
      ((∃ s, unifyUnder s₀ t u = .ok s) ↔ ∃ s, unifyUnder s₀ u t = .ok s)) := by
  refine ⟨?_, fun ht hu hbound => ⟨?_, ?_⟩⟩
  · rintro c herror ⟨r, hr, hbound⟩
    obtain ⟨s, hs⟩ := exists_unifyUnder_eq_ok idempotent hr (Substitution.absorbs_iff.mpr hbound)
    rw [hs] at herror
    cases herror
  · exact exists_unifyUnder_swap idempotent ht hu hbound
  · exact exists_unifyUnder_swap idempotent hu ht hbound

/-- Under `x → g(y)`, the terms `f(x, z)` and `f(z, y)` bind `z` to `g(y)`, and then `y` stands
against `g(y)`. -/
theorem unifyUnder_fails_only_without_unifier_after_binding :
    (Substitution.single "x" (.compound "g" [.var "y"])).Idempotent ∧
    unifyUnder (.single "x" (.compound "g" [.var "y"])) (.compound "f" [.var "x", .var "z"])
      (.compound "f" [.var "z", .var "y"]) = .error (.cyclic "y" (.compound "g" [.var "y"])) ∧
    ¬ ∃ r : Substitution,
      (Term.compound "f" [.var "x", .var "z"]).subst r =
        (Term.compound "f" [.var "z", .var "y"]).subst r ∧
      ∀ v b, (Substitution.single "x" (.compound "g" [.var "y"])).get? v = some b →
        r.value v = b.subst r := by
  refine ⟨?idempotent, ?failed, (unifyUnder_fails_only_without_unifier ?idempotent).1 _ ?failed⟩
  · exact Substitution.idempotent_single rfl
  · rfl

end Clausal
