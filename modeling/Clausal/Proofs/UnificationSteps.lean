import Mathlib.Logic.Relation
import Clausal.Unification
import Clausal.Proofs.Substitutions

/-!
# Unification as a transition system

A problem is a substitution together with the equations that are left. A step takes the first
equation and makes its move, and `Reason` says for each move what the two sides look like. Nothing
after this module opens `move`, `settle` or `solve`.
-/

namespace Clausal.Unification

set_option autoImplicit false

def Faces (t u : Term) (v : String) (w : Term) : Prop :=
  (t = .var v ∧ u = w) ∨ (u = .var v ∧ t = w)

/-- What two instantiated sides look like when a move is made for them. -/
inductive Reason (s : Substitution) (t u : Term) : Move → Prop where
  | drop : t = u → Reason s t u .drop
  | follow {v : String} {b w : Term} :
    s.get? v = some b → Faces t u v w → Reason s t u (.follow ⟨b, w⟩)
  | assign {v : String} {w : Term} :
    s.get? v = none → w.mentions v = false → Faces t u v w → Reason s t u (.assign v w)
  | split {f g : Symbol} {ts us : List Term} :
    t = .app f ts → u = .app g us → f.name = g.name → ts.length = us.length →
      Reason s t u (.split (List.zipWith Equation.mk ts us))
  | cyclic {v : String} {w : Term} :
    s.get? v = none → w.mentions v = true → t ≠ u → Faces t u v w →
      Reason s t u (.fail (.cyclic v w))
  | heads {f g : Symbol} {ts us : List Term} :
    t = .app f ts → u = .app g us → f.name ≠ g.name →
      Reason s t u (.fail (.headsDiffer f.name g.name))
  | counts {f g : Symbol} {ts us : List Term} :
    t = .app f ts → u = .app g us → f.name = g.name → ts.length ≠ us.length →
      Reason s t u (.fail (.argumentCountsDiffer f.name ts.length us.length))
  | shapes : t ≠ u → t.isVariable = false → u.isVariable = false →
      (∀ f ts g us, ¬ (t = .app f ts ∧ u = .app g us)) → Reason s t u (.fail (.shapesDiffer t u))

theorem reason_moveVariable {s : Substitution} {t u w : Term} {v : String} (h : Faces t u v w)
    (hne : t ≠ u) : Reason s t u (moveVariable s v w) := by
  unfold moveVariable
  cases hv : s.get? v with
  | some b => exact .follow hv h
  | none =>
    dsimp only
    split
    · rename_i hw
      exact .cyclic hv hw hne h
    · rename_i hw
      exact .assign hv (Bool.eq_false_iff.mpr hw) h

theorem reason_moveTerms (s : Substitution) (t u : Term) : Reason s t u (moveTerms s t u) := by
  unfold moveTerms
  split
  · exact .drop ‹_›
  rename_i hne
  split
  · exact reason_moveVariable (.inl ⟨rfl, rfl⟩) hne
  · exact reason_moveVariable (.inr ⟨rfl, rfl⟩) hne
  · split
    · exact .heads rfl rfl ‹_›
    rename_i hname
    split
    · exact .counts rfl rfl (Decidable.not_not.mp hname) ‹_›
    rename_i hlength
    exact .split rfl rfl (Decidable.not_not.mp hname) (Decidable.not_not.mp hlength)
  · rename_i hleft hright happ
    refine .shapes hne ?_ ?_ ?_
    · cases t <;> simp_all [Term.isVariable]
    · cases u <;> simp_all [Term.isVariable]
    · rintro f ts g us ⟨rfl, rfl⟩
      exact happ f ts g us rfl rfl

theorem reason_move (s : Substitution) (e : Equation) :
    Reason s (e.left.subst s) (e.right.subst s) (move s e) :=
  reason_moveTerms s _ _

structure Problem where
  bindings : Substitution
  equations : List Equation

inductive Step : Problem → Problem → Prop where
  | drop {s : Substitution} {e : Equation} {es : List Equation} :
    move s e = .drop → Step ⟨s, e :: es⟩ ⟨s, es⟩
  | follow {s : Substitution} {e e' : Equation} {es : List Equation} :
    move s e = .follow e' → Step ⟨s, e :: es⟩ ⟨s, e' :: es⟩
  | split {s : Substitution} {e : Equation} {es es' : List Equation} :
    move s e = .split es' → Step ⟨s, e :: es⟩ ⟨s, es' ++ es⟩
  | assign {s : Substitution} {e : Equation} {es : List Equation} {v : String} {t : Term} :
    move s e = .assign v t → Step ⟨s, e :: es⟩ ⟨s.bind v t, es⟩

abbrev Steps : Problem → Problem → Prop := Relation.ReflTransGen Step

/-- Where steps from the given equations lead when `settle` comes to an outcome. -/
def Reached (s : Substitution) (es : List Equation) : Outcome → Prop
  | .solved => Steps ⟨s, es⟩ ⟨s, []⟩
  | .assign v t rest => Steps ⟨s, es⟩ ⟨s.bind v t, rest⟩
  | .failed c => ∃ e rest, Steps ⟨s, es⟩ ⟨s, e :: rest⟩ ∧ move s e = .fail c
  | .unfinished => True

theorem Reached.head {s : Substitution} {es es' : List Equation} {o : Outcome}
    (h : Step ⟨s, es⟩ ⟨s, es'⟩) (ho : Reached s es' o) : Reached s es o := by
  cases o with
  | solved => exact Relation.ReflTransGen.head h ho
  | assign v t rest => exact Relation.ReflTransGen.head h ho
  | failed c =>
    obtain ⟨e, rest, hsteps, hfail⟩ := ho
    exact ⟨e, rest, Relation.ReflTransGen.head h hsteps, hfail⟩
  | unfinished => trivial

theorem reached_settle (s : Substitution) (n : Nat) (es : List Equation) :
    Reached s es (settle s n es) := by
  induction n generalizing es with
  | zero => trivial
  | succ n ih =>
    cases es with
    | nil => exact Relation.ReflTransGen.refl
    | cons e es =>
      unfold settle
      split
      · exact (ih es).head (.drop ‹_›)
      · exact (ih _).head (.follow ‹_›)
      · exact (ih _).head (.split ‹_›)
      · exact Relation.ReflTransGen.single (.assign ‹_›)
      · exact ⟨e, es, Relation.ReflTransGen.refl, ‹_›⟩

theorem steps_of_solve_eq_ok {n : Nat} {s s' : Substitution} {es : List Equation}
    (h : solve n s es = .ok s') : Steps ⟨s, es⟩ ⟨s', []⟩ := by
  induction n generalizing s es with
  | zero => cases h
  | succ n ih =>
    unfold solve at h
    have hreached := reached_settle s (allowance s es) es
    split at h
    · rename_i hsettle
      rw [hsettle] at hreached
      cases h
      exact hreached
    · rename_i v t rest hsettle
      rw [hsettle] at hreached
      exact Relation.ReflTransGen.trans hreached (ih h)
    · cases h
    · cases h

/-- A successful unification solves its one equation step by step. -/
theorem steps_of_unifyUnder_eq_ok {s s' : Substitution} {t u : Term}
    (h : unifyUnder s t u = .ok s') : Steps ⟨s, [⟨t, u⟩]⟩ ⟨s', []⟩ :=
  steps_of_solve_eq_ok h

end Clausal.Unification
