import Clausal.Proofs.Resolvents
import Clausal.Proofs.Searches
import Clausal.Proofs.UnificationFailures

/-!
# Resolution of ground clauses

Ground terms unify exactly when they agree up to declared arities, and nothing is bound. So what a
round concludes from ground clauses depends only on which clauses are held.
-/

namespace Clausal

set_option autoImplicit false

namespace Term

@[simp] theorem isGround_app (f : Symbol) (ts : List Term) :
    (app f ts).isGround = true ↔ ∀ t ∈ ts, t.isGround = true := by
  rw [isGround, areGround_iff_forall]

theorem isGround_var (v : String) : ¬ (var v).isGround = true := by
  simp [isGround]

theorem subst_of_isGround {t : Term} (h : t.isGround = true) (s : Substitution) :
    t.subst s = t := by
  apply subst_of_not_mentions
  intro v hv
  have hmem := (mem_occurrences_iff t).mpr hv
  rw [(isGround_iff t).mp h] at hmem
  cases hmem

end Term

namespace Unification

theorem hereditary_isGround : Hereditary (fun t => t.isGround = true) where
  args := by
    intro f ts h
    exact (Term.isGround_app f ts).mp h
  subst := by
    intro s t ht _
    rwa [Term.subst_of_isGround ht]

/-- The two sides are ground and differ in declared arities at most. -/
structure Equation.Agrees (e : Equation) : Prop where
  left : e.left.isGround = true
  right : e.right.isGround = true
  normal : e.left.normalize = e.right.normalize

theorem Equation.Agrees.reason {e : Equation} (he : e.Agrees) {s : Substitution} {m : Move}
    (h : move s e = m) : Reason s e.left e.right m := by
  have hreason := reason_of_move_eq h
  rwa [Term.subst_of_isGround he.left, Term.subst_of_isGround he.right] at hreason

theorem Equation.Agrees.not_faces {e : Equation} (he : e.Agrees) {v : String} {w : Term} :
    ¬ Faces e.left e.right v w := by
  intro h
  have hv := h.both (Q := fun t => t.isGround = true) he.left he.right
  exact Term.isGround_var v hv.1

/-- The arguments of applications that agree do so one by one. -/
theorem Equation.Agrees.arguments {f g : Symbol} {ts us : List Term}
    (he : Equation.Agrees ⟨.app f ts, .app g us⟩) (hlength : ts.length = us.length) :
    ∀ e ∈ List.zipWith Equation.mk ts us, e.Agrees := by
  obtain ⟨hleft, hright, hnormal⟩ := he
  rw [Term.normalize_app, Term.normalize_app, Term.app.injEq] at hnormal
  intro e hmem
  obtain ⟨ht, hu⟩ := mem_of_mem_zipWith hmem
  refine ⟨(Term.isGround_app f ts).mp hleft _ ht, (Term.isGround_app g us).mp hright _ hu, ?_⟩
  exact (forall_mem_zipWith_iff Term.normalize hlength).mpr hnormal.2 e hmem

theorem Step.agrees {p q : Problem} (h : Step p q) (hp : ∀ e ∈ p.equations, e.Agrees) :
    ∀ e ∈ q.equations, e.Agrees := by
  cases h with
  | drop _ => exact (List.forall_mem_cons.mp hp).2
  | follow hm =>
    have he := (List.forall_mem_cons.mp hp).1
    cases he.reason hm with
    | follow _ hf => exact absurd hf he.not_faces
  | @split s e es es' hm =>
    obtain ⟨he, hes⟩ := List.forall_mem_cons.mp hp
    refine List.forall_mem_append.mpr ⟨?_, hes⟩
    obtain ⟨t, u⟩ := e
    cases he.reason hm with
    | split hl hr _ hlength =>
      dsimp only at hl hr
      subst hl hr
      exact he.arguments hlength
  | assign hm =>
    have he := (List.forall_mem_cons.mp hp).1
    cases he.reason hm with
    | assign _ _ hf => exact absurd hf he.not_faces

theorem Steps.agrees {p q : Problem} (h : Steps p q) (hp : ∀ e ∈ p.equations, e.Agrees) :
    ∀ e ∈ q.equations, e.Agrees := by
  induction h with
  | refl => exact hp
  | tail _ hstep ih => exact hstep.agrees ih

theorem Equation.Agrees.move_ne_fail {e : Equation} (he : e.Agrees) (s : Substitution)
    (c : Conflict) : move s e ≠ .fail c := by
  intro h
  have hnormal := he.normal
  cases he.reason h with
  | cyclic _ _ _ hf => exact he.not_faces hf
  | heads hl hr hname =>
    rw [hl, hr, Term.normalize_app, Term.normalize_app, Term.app.injEq, Symbol.mk.injEq] at hnormal
    exact hname hnormal.1.1
  | counts hl hr _ hlength =>
    rw [hl, hr, Term.normalize_app, Term.normalize_app, Term.app.injEq, Symbol.mk.injEq] at hnormal
    exact hlength hnormal.1.2
  | shapes hne hl hr happ =>
    obtain ⟨t, u⟩ := e
    cases t with
    | var v => cases hl
    | const n =>
      cases u with
      | var v => cases hr
      | const m => exact hne hnormal
      | app g us => simp [Term.normalize] at hnormal
    | app f ts =>
      cases u with
      | var v => cases hr
      | const m => simp [Term.normalize] at hnormal
      | app g us => exact happ f ts g us ⟨rfl, rfl⟩

end Unification

open Unification

theorem eq_empty_of_unify_ground {t u : Term} {s : Substitution} (ht : t.isGround = true)
    (hu : u.isGround = true) (h : unify t u = .ok s) : s = .empty := by
  obtain ⟨-, hbinds⟩ := all_of_unifyUnder_eq_ok hereditary_isGround ht hu
    (fun v b hv => by cases hv) h
  apply Substitution.eq_of_get?_eq
  intro v
  apply Substitution.binds_eq_false_iff.mp
  rw [Bool.eq_false_iff]
  intro hv
  rcases hbinds v hv with hv | hv
  · cases hv
  · exact Term.isGround_var v hv

/-- Ground terms unify if they differ in declared arities at most, and without a binding. -/
theorem unify_eq_ok_iff_of_isGround {t u : Term} {s : Substitution} (ht : t.isGround = true)
    (hu : u.isGround = true) : unify t u = .ok s ↔ s = .empty ∧ t.normalize = u.normalize := by
  constructor
  · intro h
    have hs := eq_empty_of_unify_ground ht hu h
    have hnormal := normalize_subst_of_unify_eq_ok h
    rw [Term.subst_of_isGround ht, Term.subst_of_isGround hu] at hnormal
    exact ⟨hs, hnormal⟩
  · intro ⟨hs, hnormal⟩
    cases h : unify t u with
    | ok s' => rw [hs, eq_empty_of_unify_ground ht hu h]
    | error c =>
      obtain ⟨s', e, rest, hsteps, hfail⟩ :=
        steps_of_unifyUnder_eq_error Substitution.idempotent_empty h
      have hstart : ∀ e ∈ [Equation.mk t u], e.Agrees := by
        intro e he
        rw [List.mem_singleton.mp he]
        exact ⟨ht, hu, hnormal⟩
      have he := Steps.agrees hsteps hstart e List.mem_cons_self
      exact absurd hfail (he.move_ne_fail s' c)

theorem exists_unify_comm_of_isGround {t u : Term} (ht : t.isGround = true)
    (hu : u.isGround = true) : (∃ s, unify t u = .ok s) ↔ ∃ s, unify u t = .ok s := by
  simp only [unify_eq_ok_iff_of_isGround ht hu, unify_eq_ok_iff_of_isGround hu ht, eq_comm]

def Clause.Ground (c : Clause) : Prop := ∀ l ∈ c, l.isGround = true

def Resolvent.swap (r : Resolvent) : Resolvent := ⟨r.conclusion, r.right, r.left, r.unifier⟩

section Ground

variable {c d : Clause} (hc : c.Ground) (hd : d.Ground)
include hc hd

theorem mem_resolvents_ground {r : Resolvent} :
    r ∈ resolvents c d ↔ ∃ l ∈ c, ∃ m ∈ d, l.isOpposite m = true ∧
      l.term.normalize = m.term.normalize ∧
      r = ⟨Resolution.conclude c d l m .empty, l, m, .empty⟩ := by
  rw [mem_resolvents_iff]
  constructor
  · intro ⟨l, hl, m, hm, hsign, s, hs, hr⟩
    obtain ⟨rfl, hnormal⟩ := (unify_eq_ok_iff_of_isGround (hc l hl) (hd m hm)).mp hs
    exact ⟨l, hl, m, hm, hsign, hnormal, hr⟩
  · intro ⟨l, hl, m, hm, hsign, hnormal, hr⟩
    have hs := (unify_eq_ok_iff_of_isGround (hc l hl) (hd m hm)).mpr ⟨rfl, hnormal⟩
    exact ⟨l, hl, m, hm, hsign, .empty, hs, hr⟩

theorem swap_mem_resolvents {r : Resolvent} (hr : r ∈ resolvents c d) :
    r.swap ∈ resolvents d c := by
  obtain ⟨l, hl, m, hm, hsign, hnormal, rfl⟩ := (mem_resolvents_ground hc hd).mp hr
  apply (mem_resolvents_ground hd hc).mpr
  refine ⟨m, hm, l, hl, ?_, hnormal.symm, ?_⟩
  · rwa [Literal.isOpposite_comm]
  · rw [Resolvent.swap, Resolution.conclude_swap]

theorem ground_of_mem_resolvents {r : Resolvent} (hr : r ∈ resolvents c d) :
    r.conclusion.Ground := by
  obtain ⟨l, _, m, _, _, _, rfl⟩ := (mem_resolvents_ground hc hd).mp hr
  intro k hk
  obtain ⟨j, hj, rfl⟩ := Resolution.mem_conclude.mp hk
  have hground : j.isGround = true := by
    rcases hj with hj | hj
    · exact hc j hj.1
    · exact hd j hj.1
  unfold Literal.isGround Literal.subst
  rwa [Term.subst_of_isGround hground]

end Ground

namespace Saturation

theorem pairs_map {α β : Type} (g : α → β) (as : List α) :
    pairs (as.map g) = (pairs as).map (Prod.map g g) := by
  induction as with
  | nil => rfl
  | cons a as ih => simp [pairs, ih, Function.comp_def]

/-- How much is collected over all pairs does not depend on the order of the list, if it is as
much for a pair as for the pair reversed. -/
theorem length_flatMap_pairs {α β : Type} {f : α → α → List β} {as bs : List α}
    (h : as.Perm bs) (hf : ∀ a ∈ as, ∀ b ∈ as, (f a b).length = (f b a).length) :
    ((pairs as).flatMap fun p => f p.1 p.2).length =
      ((pairs bs).flatMap fun p => f p.1 p.2).length := by
  have pairs_cons (a : α) (as : List α) : ((pairs (a :: as)).flatMap fun p => f p.1 p.2).length =
      (as.flatMap (f a)).length + ((pairs as).flatMap fun p => f p.1 p.2).length := by
    simp only [pairs, List.flatMap_append, List.flatMap_map, List.length_append]
  induction h with
  | nil => rfl
  | @cons a as bs h ih =>
    have htail := ih (fun b hb c hc =>
      hf b (List.mem_cons_of_mem a hb) c (List.mem_cons_of_mem a hc))
    have hhead := (h.flatMap_right (f a)).length_eq
    rw [pairs_cons, pairs_cons]
    omega
  | swap a b as =>
    -- only the pair of the two that change places is met the other way round
    have hab := hf a (by simp) b (by simp)
    simp only [pairs_cons, List.flatMap_cons, List.length_append]
    omega
  | trans h _ ih ih' =>
    apply (ih hf).trans
    apply ih'
    intro a ha b hb
    exact hf a (h.mem_iff.mpr ha) b (h.mem_iff.mpr hb)

theorem map_resolvent_inferences (held : ClauseSet) :
    (inferences held).map Inference.resolvent =
      (pairs held.toList).flatMap fun p => resolvents p.1 p.2 := by
  have hlist : held.toList = held.toList.zipIdx.map Prod.fst := (List.zipIdx_map_fst 0 _).symm
  conv_rhs => rw [hlist, pairs_map, List.flatMap_map]
  simp [inferences, List.map_flatMap, inferencesOf, Function.comp_def]

variable {held held' : ClauseSet}

/-- Ground clauses conclude what two different ones of them resolve to, in either order. -/
theorem concludes_iff_of_ground (hground : ∀ c ∈ held, c.Ground) {e : Clause} :
    Concludes held e ↔
      ∃ c ∈ held, ∃ d ∈ held, c ≠ d ∧ ∃ r ∈ resolvents c d, r.conclusion = e := by
  constructor
  · intro ⟨x, hx, he⟩
    obtain ⟨hlt, hleft, hright, hr⟩ := mem_inferences_iff.mp hx
    exact ⟨_, List.mem_of_getElem? hleft, _, List.mem_of_getElem? hright,
      ne_of_getElem? hlt hleft hright, _, hr, he⟩
  · intro ⟨c, hc, d, hd, hne, r, hr, he⟩
    obtain ⟨i, hi⟩ := List.mem_iff_getElem?.mp hc
    obtain ⟨j, hj⟩ := List.mem_iff_getElem?.mp hd
    rcases Nat.lt_trichotomy i j with hij | rfl | hji
    · exact ⟨⟨(c, i), (d, j), r⟩, mem_inferences_iff.mpr ⟨hij, hi, hj, hr⟩, he⟩
    · exact absurd (Option.some.inj (hi.symm.trans hj)) hne
    · -- the later clause was named first, so the round resolves the pair in the other order
      have hswap := swap_mem_resolvents (hground c hc) (hground d hd) hr
      exact ⟨⟨(d, j), (c, i), r.swap⟩, mem_inferences_iff.mpr ⟨hji, hj, hi, hswap⟩, he⟩

theorem Concludes.mono {e : Clause} (h : Concludes held e) (hground : ∀ c ∈ held', c.Ground)
    (hsub : ∀ c ∈ held, c ∈ held') : Concludes held' e := by
  have hground' : ∀ c ∈ held, c.Ground := fun c hc => hground c (hsub c hc)
  obtain ⟨c, hc, d, hd, hresolves⟩ := (concludes_iff_of_ground hground').mp h
  exact (concludes_iff_of_ground hground).mpr ⟨c, hsub c hc, d, hsub d hd, hresolves⟩

theorem length_inferences_of_ground (hground : ∀ c ∈ held, c.Ground)
    (h : held.toList.Perm held'.toList) :
    (inferences held).length = (inferences held').length := by
  rw [← List.length_map Inference.resolvent, map_resolvent_inferences,
    ← List.length_map Inference.resolvent, map_resolvent_inferences]
  apply length_flatMap_pairs h
  intro c hc d hd
  apply length_resolvents_swap
  intro l hl m hm
  exact exists_unify_comm_of_isGround (hground c hc l hl) (hground d hd m hm)

theorem Derivable.ground {given : ClauseSet} {query : Literal} {h : Holding}
    (hh : Derivable given query h) (hgiven : ∀ c ∈ given, c.Ground)
    (hquery : query.isGround = true) : ∀ c ∈ h.clauses, c.Ground := by
  refine hh.forall_mem ?_ ?_
  · intro c hc
    rcases Holding.mem_start.mp hc with rfl | hc
    · intro l hl
      rw [Clause.mem_unit.mp hl]
      exact hquery
    · exact hgiven c hc
  · intro c d r _ hc hd hr
    exact ground_of_mem_resolvents hc hd hr

theorem ground_of_advances {limits : Limits} {cancelled : Bool} {clock : Clock}
    {given : ClauseSet} {query : Literal} {s : State}
    (hs : Relation.ReflTransGen (Advance limits cancelled clock) (.initial given query) s)
    (hempty : ¬ .empty ∈ (Holding.start given query).clauses) (hgiven : ∀ c ∈ given, c.Ground)
    (hquery : query.isGround = true) : ∀ c ∈ s.holding.clauses, c.Ground :=
  (derivable_of_advances hs hempty).1.ground hgiven hquery

end Saturation

end Clausal
