import Mathlib.Data.Finset.Powerset
import Mathlib.Data.Fintype.BigOperators
import Clausal.Proofs.MostGeneral
import Clausal.Proofs.Resolvents
import Clausal.Proofs.Searches

/-!
# Searches over flat clauses end

A flat atom is a constant, or a function applied to constants and variables. Resolution never
leaves the flat atoms of a vocabulary, there are finitely many clauses over these, and every round
after which a search goes on adds one. Nested terms are excluded: they can grow without bound.
-/

namespace Clausal

set_option autoImplicit false

namespace Term

def isSimple : Term → Bool
  | const _ => true
  | var _ => true
  | app _ _ => false

/-- A constant, or a function applied to constants and variables. -/
def isFlat : Term → Bool
  | const _ => true
  | var _ => false
  | app _ ts => ts.all isSimple

mutual

def leaves : Term → List Term
  | const n => [const n]
  | var n => [var n]
  | app _ ts => leavesIn ts

def leavesIn : List Term → List Term
  | [] => []
  | t :: ts => leaves t ++ leavesIn ts

end

theorem leavesIn_eq_flatMap (ts : List Term) : leavesIn ts = ts.flatMap leaves := by
  induction ts with
  | nil => rfl
  | cons t ts ih => rw [leavesIn, ih, List.flatMap_cons]

theorem isSimple_of_mem_leaves {t u : Term} (h : u ∈ t.leaves) : u.isSimple = true := by
  induction t with
  | const n =>
    rw [List.mem_singleton.mp h]
    rfl
  | var n =>
    rw [List.mem_singleton.mp h]
    rfl
  | app f ts ih =>
    rw [leaves, leavesIn_eq_flatMap] at h
    obtain ⟨t, ht, hu⟩ := List.mem_flatMap.mp h
    exact ih t ht hu

theorem mem_leaves_of_isSimple {t : Term} (h : t.isSimple = true) : t ∈ t.leaves := by
  cases t with
  | const n => exact List.mem_singleton_self _
  | var n => exact List.mem_singleton_self _
  | app f ts => cases h

def constant? : Term → Option String
  | const n => some n
  | _ => none

def head? : Term → Option (Symbol × Nat)
  | app f ts => some (f, ts.length)
  | _ => none

end Term

/-- What flat atoms are made of: constants that are atoms, function symbols with the numbers of
arguments they take, and the constants and variables that may be arguments. -/
structure Vocabulary where
  constants : Finset String
  heads : Finset (Symbol × Nat)
  arguments : Finset Term
  simple : ∀ t ∈ arguments, t.isSimple = true

namespace Vocabulary

def ofTerms (ts : List Term) : Vocabulary where
  constants := (ts.filterMap Term.constant?).toFinset
  heads := (ts.filterMap Term.head?).toFinset
  -- a constant that is an atom may be an argument as well
  arguments := (ts.flatMap Term.leaves).toFinset
  simple := by
    intro u hu
    obtain ⟨t, -, hut⟩ := List.mem_flatMap.mp (List.mem_toFinset.mp hu)
    exact Term.isSimple_of_mem_leaves hut

def applications (V : Vocabulary) (h : Symbol × Nat) : Finset Term :=
  (Fintype.piFinset fun _ : Fin h.2 => V.arguments).image fun args => .app h.1 (List.ofFn args)

def atoms (V : Vocabulary) : Finset Term :=
  V.constants.image .const ∪ V.heads.biUnion V.applications

variable {V : Vocabulary} {t : Term}

theorem mem_applications {h : Symbol × Nat} : t ∈ V.applications h ↔
    ∃ ts, ts.length = h.2 ∧ (∀ u ∈ ts, u ∈ V.arguments) ∧ t = .app h.1 ts := by
  obtain ⟨f, n⟩ := h
  simp only [applications, Finset.mem_image, Fintype.mem_piFinset]
  constructor
  · rintro ⟨args, hargs, rfl⟩
    refine ⟨List.ofFn args, List.length_ofFn, ?_, rfl⟩
    intro u hu
    obtain ⟨i, rfl⟩ := List.mem_ofFn.mp hu
    exact hargs i
  · rintro ⟨ts, rfl, hts, rfl⟩
    exact ⟨ts.get, fun i => hts _ (List.get_mem ts i), by rw [List.ofFn_get]⟩

theorem mem_atoms : t ∈ V.atoms ↔ (∃ n ∈ V.constants, t = .const n) ∨
    ∃ f ts, (f, ts.length) ∈ V.heads ∧ (∀ u ∈ ts, u ∈ V.arguments) ∧ t = .app f ts := by
  simp only [atoms, Finset.mem_union, Finset.mem_image, Finset.mem_biUnion, mem_applications]
  refine or_congr (by simp only [eq_comm]) ?_
  constructor
  · rintro ⟨⟨f, n⟩, hf, ts, rfl, hts, rfl⟩
    exact ⟨f, ts, hf, hts, rfl⟩
  · rintro ⟨f, ts, hf, hts, rfl⟩
    exact ⟨(f, ts.length), hf, ts, rfl, hts, rfl⟩

theorem card_applications (V : Vocabulary) (h : Symbol × Nat) :
    (V.applications h).card = V.arguments.card ^ h.2 := by
  have hinjective :
      Function.Injective fun args : Fin h.2 → Term => Term.app h.1 (List.ofFn args) :=
    fun _ _ heq => List.ofFn_injective (Term.app.inj heq).2
  rw [applications, Finset.card_image_of_injective _ hinjective, Fintype.card_piFinset_const]

/-- There is an atom for each constant, and for each function symbol one for each choice of its
arguments. -/
theorem card_atoms (V : Vocabulary) :
    V.atoms.card = V.constants.card + ∑ h ∈ V.heads, V.arguments.card ^ h.2 := by
  have hheads : (V.heads : Set (Symbol × Nat)).PairwiseDisjoint V.applications := by
    intro h _ h' _ hne
    refine Finset.disjoint_left.mpr fun t ht ht' => hne ?_
    obtain ⟨ts, hlength, -, rfl⟩ := mem_applications.mp ht
    obtain ⟨ts', hlength', -, heq⟩ := mem_applications.mp ht'
    obtain ⟨hf, rfl⟩ := Term.app.inj heq
    exact Prod.ext hf (hlength.symm.trans hlength')
  have hdisjoint : Disjoint (V.constants.image Term.const) (V.heads.biUnion V.applications) := by
    refine Finset.disjoint_left.mpr fun t ht ht' => ?_
    obtain ⟨n, -, rfl⟩ := Finset.mem_image.mp ht
    obtain ⟨h, -, ht'⟩ := Finset.mem_biUnion.mp ht'
    obtain ⟨ts, -, -, heq⟩ := mem_applications.mp ht'
    cases heq
  rw [atoms, Finset.card_union_of_disjoint hdisjoint, Finset.card_biUnion hheads,
    Finset.card_image_of_injective _ fun _ _ heq => Term.const.inj heq]
  simp only [card_applications]

theorem mem_atoms_ofTerms {ts : List Term} (ht : t ∈ ts) (hflat : t.isFlat = true) :
    t ∈ (ofTerms ts).atoms := by
  rw [mem_atoms]
  cases t with
  | const n => exact Or.inl ⟨n, List.mem_toFinset.mpr (List.mem_filterMap.mpr ⟨_, ht, rfl⟩), rfl⟩
  | var n => cases hflat
  | app f us =>
    refine Or.inr ⟨f, us, List.mem_toFinset.mpr (List.mem_filterMap.mpr ⟨_, ht, rfl⟩), ?_, rfl⟩
    intro u hu
    have hsimple : u.isSimple = true := List.all_eq_true.mp hflat u hu
    refine List.mem_toFinset.mpr (List.mem_flatMap.mpr ⟨_, ht, ?_⟩)
    rw [Term.leaves, Term.leavesIn_eq_flatMap]
    exact List.mem_flatMap.mpr ⟨u, hu, Term.mem_leaves_of_isSimple hsimple⟩

def literals (V : Vocabulary) : Finset Literal :=
  (Finset.univ ×ˢ V.atoms).image fun p => ⟨p.1, p.2⟩

theorem mem_literals {l : Literal} : l ∈ V.literals ↔ l.term ∈ V.atoms := by
  simp only [literals, Finset.mem_image, Finset.mem_product, Finset.mem_univ, true_and]
  constructor
  · rintro ⟨p, hp, rfl⟩
    exact hp
  · intro hl
    exact ⟨(l.positive, l.term), hl, rfl⟩

theorem card_literals_le (V : Vocabulary) : V.literals.card ≤ 2 * V.atoms.card := by
  refine Finset.card_image_le.trans ?_
  rw [Finset.card_product, Finset.card_univ, Fintype.card_bool]

theorem not_mem_arguments_app {f : Symbol} {ts : List Term} : .app f ts ∉ V.arguments :=
  fun h => Bool.false_ne_true (V.simple _ h)

theorem hereditary_arguments (V : Vocabulary) : Unification.Hereditary (· ∈ V.arguments) where
  args := by
    intro f ts h
    exact absurd h not_mem_arguments_app
  subst := by
    intro s t ht hs
    cases t with
    | const n => exact ht
    | var n => exact Substitution.value_induction (Q := (· ∈ V.arguments)) ht hs
    | app f ts => exact absurd ht not_mem_arguments_app

theorem isVariable_of_mem_atoms (h : t ∈ V.atoms) : t.isVariable = false := by
  rcases mem_atoms.mp h with ⟨n, -, rfl⟩ | ⟨f, ts, -, -, rfl⟩ <;> rfl

theorem mem_arguments_of_mem_args (h : t ∈ V.atoms) : ∀ u ∈ t.args, u ∈ V.arguments := by
  rcases mem_atoms.mp h with ⟨n, -, rfl⟩ | ⟨f, ts, -, hts, rfl⟩
  · intro u hu
    cases hu
  · exact hts

theorem subst_mem_atoms (h : t ∈ V.atoms) {s : Substitution}
    (hs : ∀ v b, s.get? v = some b → b ∈ V.arguments) : t.subst s ∈ V.atoms := by
  rcases mem_atoms.mp h with ⟨n, -, rfl⟩ | ⟨f, ts, hf, hts, rfl⟩
  · exact h
  · refine mem_atoms.mpr (Or.inr ⟨f, ts.map (Term.subst s), ?_, ?_, Term.subst_app s f ts⟩)
    · rwa [List.length_map]
    · intro u hu
      obtain ⟨x, hx, rfl⟩ := List.mem_map.mp hu
      exact V.hereditary_arguments.subst (hts x hx) hs

end Vocabulary

namespace Unification

/-- Terms that are no variables are unified by their arguments: what holds of these and passes to
instances holds of every bound term. `all_of_unifyUnder_eq_ok` would ask it of the terms too. -/
theorem all_of_unify_eq_ok {Q : Term → Prop} (hQ : Hereditary Q) {t u : Term} {s : Substitution}
    (ht : t.isVariable = false) (hu : u.isVariable = false) (hts : ∀ x ∈ t.args, Q x)
    (hus : ∀ x ∈ u.args, Q x) (unified : unify t u = .ok s) :
    ∀ v b, s.get? v = some b → Q b := by
  rcases Relation.ReflTransGen.cases_head (steps_of_unifyUnder_eq_ok unified) with
    heq | ⟨p, hstep, hrest⟩
  · cases heq
  -- the first step settles the heads, and only equations between arguments are left after it
  suffices hp : p.All Q from (Steps.all hrest hQ hp).bound
  have unbound : ∀ v b, Substitution.empty.get? v = some b → Q b := by
    intro v b hv
    cases hv
  cases hstep with
  | drop hm => exact ⟨unbound, fun e he => absurd he List.not_mem_nil⟩
  | follow hm =>
    cases reason_of_move_eq hm with
    | follow hv _ => cases hv
  | assign hm =>
    cases reason_of_move_eq hm with
    | assign _ _ hf =>
      rw [Term.subst_empty, Term.subst_empty] at hf
      rcases hf with ⟨rfl, -⟩ | ⟨rfl, -⟩
      · cases ht
      · cases hu
  | split hm =>
    cases reason_of_move_eq hm with
    | split hl hr _ _ =>
      rw [Term.subst_empty] at hl hr
      subst hl hr
      refine ⟨unbound, fun e he => ?_⟩
      rw [List.append_nil] at he
      obtain ⟨hleft, hright⟩ := mem_of_mem_zipWith he
      exact ⟨hts _ hleft, hus _ hright⟩

end Unification

namespace Clause

def Over (V : Vocabulary) (c : Clause) : Prop := ∀ l ∈ c, l.term ∈ V.atoms

variable {V : Vocabulary}

/-- Resolution stays within a vocabulary. -/
theorem over_of_mem_resolvents {c d : Clause} {r : Resolvent} (hc : c.Over V) (hd : d.Over V)
    (hr : r ∈ resolvents c d) : r.conclusion.Over V := by
  obtain ⟨l, hl, m, hm, -, s, hs, rfl⟩ := mem_resolvents_iff.mp hr
  have hbound := Unification.all_of_unify_eq_ok V.hereditary_arguments
    (Vocabulary.isVariable_of_mem_atoms (hc l hl)) (Vocabulary.isVariable_of_mem_atoms (hd m hm))
    (Vocabulary.mem_arguments_of_mem_args (hc l hl))
    (Vocabulary.mem_arguments_of_mem_args (hd m hm)) hs
  intro k hk
  obtain ⟨j, hj, rfl⟩ := Resolution.mem_conclude.mp hk
  rcases hj with ⟨hj, -⟩ | ⟨hj, -⟩
  · exact Vocabulary.subst_mem_atoms (hc j hj) hbound
  · exact Vocabulary.subst_mem_atoms (hd j hj) hbound

theorem toFinset_injective : Function.Injective fun c : Clause => c.toList.toFinset := by
  intro c d h
  apply eq_of_mem_iff
  intro l
  rw [← mem_toList, ← mem_toList, ← List.mem_toFinset, ← List.mem_toFinset]
  exact Finset.ext_iff.mp h l

/-- Clauses without the empty one are fewer than the sets of literals. -/
theorem size_lt_of_over {held : ClauseSet} (hover : ∀ c ∈ held, c.Over V)
    (hempty : ¬ .empty ∈ held) : held.size < 2 ^ (2 * V.atoms.card) := by
  have hnodup : (held.toList.map fun c => c.toList.toFinset).Nodup :=
    held.nodup.map toFinset_injective
  have hsub : (held.toList.map fun c => c.toList.toFinset).toFinset ⊆
      V.literals.powerset.erase ∅ := by
    intro ls hls
    obtain ⟨c, hc, rfl⟩ := List.mem_map.mp (List.mem_toFinset.mp hls)
    -- the empty set of literals is left for the empty clause
    refine Finset.mem_erase.mpr ⟨?_, Finset.mem_powerset.mpr ?_⟩
    · intro h
      have hce : c = .empty := toFinset_injective h
      exact hempty (hce ▸ hc)
    · intro l hl
      exact Vocabulary.mem_literals.mpr (hover c hc l (List.mem_toFinset.mp hl))
  calc held.size = (held.toList.map fun c => c.toList.toFinset).toFinset.card := by
        rw [List.toFinset_card_of_nodup hnodup, List.length_map]
        rfl
    _ ≤ (V.literals.powerset.erase ∅).card := Finset.card_le_card hsub
    _ < V.literals.powerset.card := Finset.card_erase_lt_of_mem (Finset.empty_mem_powerset _)
    _ = 2 ^ V.literals.card := Finset.card_powerset _
    _ ≤ 2 ^ (2 * V.atoms.card) := Nat.pow_le_pow_right Nat.two_pos V.card_literals_le

end Clause

section Search

open Saturation

variable {given : ClauseSet} {query : Literal}

def vocabulary (given : ClauseSet) (query : Literal) : Vocabulary :=
  .ofTerms (query.term :: given.toList.flatMap fun c => c.toList.map Literal.term)

theorem over_start (flat : ∀ c ∈ given, ∀ l ∈ c, l.term.isFlat = true)
    (flatQuery : query.term.isFlat = true) :
    ∀ c ∈ (Holding.start given query).clauses, c.Over (vocabulary given query) := by
  intro c hc l hl
  rcases Holding.mem_start.mp hc with rfl | hc
  · rw [Clause.mem_unit.mp hl]
    exact Vocabulary.mem_atoms_ofTerms List.mem_cons_self flatQuery
  · refine Vocabulary.mem_atoms_ofTerms (List.mem_cons_of_mem _ ?_) (flat c hc l hl)
    exact List.mem_flatMap.mpr ⟨c, hc, List.mem_map_of_mem hl⟩

theorem rounds_lt_of_advances {limits : Limits} {cancelled : Bool} {clock : Clock} {t : State}
    (flat : ∀ c ∈ given, ∀ l ∈ c, l.term.isFlat = true) (flatQuery : query.term.isFlat = true)
    (hempty : ¬ .empty ∈ (Holding.start given query).clauses)
    (h : Relation.ReflTransGen (Advance limits cancelled clock) (.initial given query) t) :
    t.tally.rounds + 1 < 2 ^ (2 * (vocabulary given query).atoms.card) := by
  obtain ⟨hderivable, hempty'⟩ := derivable_of_advances h hempty
  have hover := hderivable.forall_mem (over_start flat flatQuery) fun _ =>
    Clause.over_of_mem_resolvents
  have hsize := Clause.size_lt_of_over hover hempty'
  -- the negated query is held from the start, and each round has added a clause
  have hgrown := rounds_add_size_le_of_advances h
  have hstart : 0 < (State.initial given query).holding.size :=
    List.length_pos_of_mem (Holding.mem_start.mpr (Or.inl rfl))
  have hzero : (State.initial given query).tally.rounds = 0 := rfl
  have hheld : t.holding.size = t.holding.clauses.size := rfl
  omega

/-- Over flat clauses no search starts more rounds than there are sets of literals over the atoms
that can be formed, and one that may start as many and has no other limit comes to a conclusion. -/
theorem entails_flat_saturates (p : Prover) (clock : Clock) (given : ClauseSet) (query : Literal)
    (flat : ∀ c ∈ given, ∀ l ∈ c, l.term.isFlat = true) (flatQuery : query.term.isFlat = true) :
    (p.entails clock given query).tally.rounds ≤
      2 ^ (2 * (vocabulary given query).atoms.card) ∧
    (2 ^ (2 * (vocabulary given query).atoms.card) ≤ p.limits.rounds → p.limits.clauses = none →
      p.limits.time = none → p.cancelled = false →
      (p.entails clock given query).verdict = .proven ∨
        (p.entails clock given query).verdict = .disproven) := by
  unfold Prover.entails Prover.ask
  rcases search_cases p.limits p.cancelled clock given query with
    ⟨-, heq⟩ | ⟨hempty, t, ht, hends⟩
  · rw [heq]
    exact ⟨Nat.zero_le _, fun _ _ _ _ => Or.inl rfl⟩
  · have hlt := rounds_lt_of_advances flat flatQuery hempty ht
    refine ⟨hends.rounds_le.trans hlt.le, ?_⟩
    intro hrounds hclauses huntimed hrunning
    rw [hrunning] at hends ⊢
    exact hends.conclusive (by omega) hclauses huntimed

/-- If anything is `P`, everything is. -/
def spreading : ClauseSet := .ofList
  [.ofList [⟨false, .compound "P" [.var "x"]⟩, ⟨true, .compound "P" [.var "y"]⟩]]

/-- Three atoms can be formed when `P(A)` is asked, so 64 rounds are enough. -/
theorem entails_flat_saturates_spreading :
    (∀ c ∈ spreading, ∀ l ∈ c, l.term.isFlat = true) ∧
    (vocabulary spreading ⟨true, .compound "P" [.const "A"]⟩).atoms.card = 3 ∧
    (Prover.entails ⟨⟨64, none, none⟩, false⟩ (fun _ => .zero) spreading
      ⟨true, .compound "P" [.const "A"]⟩).tally.rounds ≤ 64 ∧
    ((Prover.entails ⟨⟨64, none, none⟩, false⟩ (fun _ => .zero) spreading
        ⟨true, .compound "P" [.const "A"]⟩).verdict = .proven ∨
      (Prover.entails ⟨⟨64, none, none⟩, false⟩ (fun _ => .zero) spreading
        ⟨true, .compound "P" [.const "A"]⟩).verdict = .disproven) := by
  have flat : ∀ c ∈ spreading, ∀ l ∈ c, l.term.isFlat = true := by
    simp [spreading, Term.compound, Term.isFlat, Term.isSimple]
  have card : (vocabulary spreading ⟨true, .compound "P" [.const "A"]⟩).atoms.card = 3 := by
    rw [Vocabulary.card_atoms]
    decide +kernel
  obtain ⟨hrounds, hconclusive⟩ := entails_flat_saturates ⟨⟨64, none, none⟩, false⟩
    (fun _ => .zero) spreading ⟨true, .compound "P" [.const "A"]⟩ flat rfl
  rw [card] at hrounds hconclusive
  exact ⟨flat, card, hrounds, hconclusive (by decide) rfl rfl rfl⟩

end Search

end Clausal
