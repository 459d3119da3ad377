import Mathlib.Data.Finset.Card
import Mathlib.Order.Minimal
import Clausal.Proofs.Lifting
import Clausal.Proofs.Structures

/-!
# Saturation is complete for anchored clauses

Fix a sign and call the literals of that sign guards. A clause is anchored when each of its
variables stands in one of its guards; resolvents of anchored clauses are anchored. A saturated set
of anchored clauses without the empty clause has a model: a minimal set of terms that meets every
clause without guards.
-/

namespace Clausal

set_option autoImplicit false

namespace Clause

/-- Every variable of the clause stands in one of its literals of the given sign. -/
def Anchored (sign : Bool) (c : Clause) : Prop :=
  ∀ l ∈ c, ∀ v, l.term.mentions v = true →
    ∃ g ∈ c, g.positive = sign ∧ g.term.mentions v = true

def Unguarded (sign : Bool) (c : Clause) : Prop := ∀ l ∈ c, l.positive ≠ sign

variable {sign : Bool} {c d e : Clause} {l m : Literal} {s : Substitution}

theorem Anchored.subst_eq (hc : c.Anchored sign) (hguards : c.Unguarded sign) (hl : l ∈ c)
    (r : Substitution) : l.subst r = l := by
  have hterm : l.term.subst r = l.term := by
    apply Term.subst_of_not_mentions
    intro v hv
    obtain ⟨g, hg, hsign, -⟩ := hc l hl v hv
    exact hguards g hg hsign
  unfold Literal.subst
  rw [hterm]

/-- A variable that an instance of a literal of one premise comes to mention stands in a guard
that is left of one of the premises. -/
theorem Anchored.exists_guard (hc : c.Anchored sign) (hd : d.Anchored sign) (hm : m ∈ d)
    (hsign : l.isOpposite m = true)
    (hterms : (l.term.subst s).normalize = (m.term.subst s).normalize)
    (hce : ∀ j ∈ c, j ≠ l → j.subst s ∈ e) (hde : ∀ j ∈ d, j ≠ m → j.subst s ∈ e)
    {j : Literal} (hj : j ∈ c) {w : String} (hw : (j.term.subst s).mentions w = true) :
    ∃ g ∈ e, g.positive = sign ∧ g.term.mentions w = true := by
  obtain ⟨v, hv, hvw⟩ := Term.mentions_subst.mp hw
  obtain ⟨g, hg, hgsign, hgv⟩ := hc j hj v hv
  have hgw : (g.term.subst s).mentions w = true := Term.mentions_subst.mpr ⟨v, hgv, hvw⟩
  by_cases hgl : g = l
  · -- this guard is resolved away, but the other literal resolved on mentions the same
    subst hgl
    rw [← Term.mentions_normalize, hterms, Term.mentions_normalize] at hgw
    obtain ⟨x, hx, hxw⟩ := Term.mentions_subst.mp hgw
    obtain ⟨k, hk, hksign, hkx⟩ := hd m hm x hx
    have hkm : k ≠ m := by
      rintro rfl
      exact Literal.isOpposite_iff.mp hsign (hgsign.trans hksign.symm)
    exact ⟨k.subst s, hde k hk hkm, hksign, Term.mentions_subst.mpr ⟨x, hkx, hxw⟩⟩
  · exact ⟨g.subst s, hce g hg hgl, hgsign, hgw⟩

theorem anchored_of_mem_resolvents {r : Resolvent} (hc : c.Anchored sign) (hd : d.Anchored sign)
    (hr : r ∈ resolvents c d) : r.conclusion.Anchored sign := by
  obtain ⟨l, hl, m, hm, hsign, s, hs, rfl⟩ := mem_resolvents_iff.mp hr
  have hterms := normalize_subst_of_unify_eq_ok hs
  have hleft : ∀ j ∈ c, j ≠ l → j.subst s ∈ Resolution.conclude c d l m s := by
    intro j hj hjl
    exact Resolution.mem_conclude.mpr ⟨j, Or.inl ⟨hj, hjl⟩, rfl⟩
  have hright : ∀ j ∈ d, j ≠ m → j.subst s ∈ Resolution.conclude c d l m s := by
    intro j hj hjm
    exact Resolution.mem_conclude.mpr ⟨j, Or.inr ⟨hj, hjm⟩, rfl⟩
  intro k hk w hw
  obtain ⟨j, hj, rfl⟩ := Resolution.mem_conclude.mp hk
  rcases hj with ⟨hj, -⟩ | ⟨hj, -⟩
  · exact hc.exists_guard hd hm hsign hterms hleft hright hj hw
  · rw [Literal.isOpposite_comm] at hsign
    exact hd.exists_guard hc hl hsign hterms.symm hright hleft hj hw

def guards (sign : Bool) (c : Clause) : Finset Literal :=
  (c.toList.filter fun l => l.positive = sign).toFinset

theorem mem_guards : l ∈ c.guards sign ↔ l ∈ c ∧ l.positive = sign := by
  simp [guards, mem_toList]

/-- Losing a guard and instantiating the others leaves fewer. -/
theorem card_guards_lt {g : Literal} (hg : g ∈ c.guards sign)
    (he : ∀ k ∈ e, k.positive = sign → ∃ j ∈ c, j ≠ g ∧ j.subst s = k) :
    (e.guards sign).card < (c.guards sign).card := by
  have hsub : e.guards sign ⊆ ((c.guards sign).erase g).image (Literal.subst s) := by
    intro k hk
    obtain ⟨hk, hsign⟩ := mem_guards.mp hk
    obtain ⟨j, hj, hjg, rfl⟩ := he k hk hsign
    apply Finset.mem_image_of_mem
    exact Finset.mem_erase.mpr ⟨hjg, mem_guards.mpr ⟨hj, hsign⟩⟩
  calc (e.guards sign).card ≤ (((c.guards sign).erase g).image (Literal.subst s)).card :=
        Finset.card_le_card hsub
    _ ≤ ((c.guards sign).erase g).card := Finset.card_image_le
    _ < (c.guards sign).card := Finset.card_erase_lt_of_mem hg

theorem exists_mem_of_ne_empty (h : c ≠ .empty) : ∃ l, l ∈ c := by
  by_contra hnone
  apply h
  apply eq_of_mem_iff
  intro l
  exact ⟨fun hl => absurd ⟨l, hl⟩ hnone, fun hl => absurd hl (not_mem_empty l)⟩

end Clause

section Choice

def Meets (held : ClauseSet) (sign : Bool) (chosen : Finset Term) : Prop :=
  ∀ c ∈ held, c.Unguarded sign → ∃ l ∈ c, l.term ∈ chosen

/-- The chosen terms meet every clause without guards, and none could be left out: for each some
clause has no other literal to meet. -/
structure Choice (held : ClauseSet) (sign : Bool) (chosen : Finset Term) : Prop where
  meets : Meets held sign chosen
  needed : ∀ t ∈ chosen, ∃ c ∈ held, c.Unguarded sign ∧
    ∃ l ∈ c, l.term = t ∧ ∀ k ∈ c, k ≠ l → k.term ∉ chosen

variable {held : ClauseSet} {sign : Bool} {chosen : Finset Term}

theorem exists_meets (sign : Bool) (hempty : ¬ .empty ∈ held) :
    ∃ chosen, Meets held sign chosen := by
  refine ⟨(held.toList.flatMap fun c => c.toList.map Literal.term).toFinset, ?_⟩
  intro c hc _
  obtain ⟨l, hl⟩ := Clause.exists_mem_of_ne_empty fun h => hempty (h ▸ hc)
  refine ⟨l, hl, List.mem_toFinset.mpr ?_⟩
  exact List.mem_flatMap.mpr ⟨c, hc, List.mem_map_of_mem hl⟩

theorem exists_choice (sign : Bool) (hempty : ¬ .empty ∈ held) :
    ∃ chosen, Choice held sign chosen := by
  obtain ⟨chosen, hchosen⟩ :=
    exists_minimal_of_wellFoundedLT (Meets held sign) (exists_meets sign hempty)
  refine ⟨chosen, hchosen.prop, ?_⟩
  intro t ht
  have hless := hchosen.not_prop_of_lt (Finset.erase_ssubset ht)
  simp only [Meets, not_forall, not_exists, not_and] at hless
  obtain ⟨c, hc, hguards, hmissed⟩ := hless
  have only {l : Literal} (hl : l ∈ c) (hlt : l.term ∈ chosen) : l.term = t := by
    by_contra hne
    exact hmissed l hl (Finset.mem_erase.mpr ⟨hne, hlt⟩)
  obtain ⟨l, hl, hlt⟩ := hchosen.prop c hc hguards
  refine ⟨c, hc, hguards, l, hl, only hl hlt, ?_⟩
  intro k hk hkl hkt
  apply hkl
  have hsign : k.positive = l.positive := by
    rw [Bool.eq_not.mpr (hguards k hk), Bool.eq_not.mpr (hguards l hl)]
  have hterm : k.term = l.term := (only hk hkt).trans (only hl hlt).symm
  cases k
  cases l
  simp_all

/-- A guard is accepted when its term is not chosen, another literal when it is. -/
def Literal.Accepted (sign : Bool) (chosen : Finset Term) (l : Literal) : Prop :=
  l.term ∈ chosen ↔ l.positive ≠ sign

variable (hchoice : Choice held sign chosen) (hsaturated : Saturation.Saturated held)
variable (hanchored : ∀ c ∈ held, c.Anchored sign) (r : Substitution)
include hchoice hanchored

theorem Choice.exists_accepted_of_unguarded {c : Clause} (hc : c ∈ held)
    (hguards : c.Unguarded sign) : ∃ l ∈ c, (l.subst r).Accepted sign chosen := by
  obtain ⟨l, hl, hlt⟩ := hchoice.meets c hc hguards
  refine ⟨l, hl, ?_⟩
  rw [(hanchored c hc).subst_eq hguards hl r]
  exact iff_of_true hlt (hguards l hl)

include hsaturated

/-- From a clause with a guard of which nothing is accepted, resolution makes one with fewer
guards. -/
theorem Choice.exists_fewer_guards {c : Clause} (hc : c ∈ held)
    (hnone : ∀ l ∈ c, ¬ (l.subst r).Accepted sign chosen) {g : Literal} (hg : g ∈ c)
    (hgsign : g.positive = sign) :
    ∃ e ∈ held, (e.guards sign).card < (c.guards sign).card ∧
      ∀ k ∈ e, ¬ (k.subst r).Accepted sign chosen := by
  have hgt : g.term.subst r ∈ chosen := by
    by_contra hgt
    exact hnone g hg (iff_of_false hgt (not_not.mpr hgsign))
  obtain ⟨d, hd, hguards, l, hl, hlt, hothers⟩ := hchoice.needed _ hgt
  have hground {k : Literal} (hk : k ∈ d) : k.subst r = k :=
    (hanchored d hd).subst_eq hguards hk r
  have hcd : c ≠ d := by
    rintro rfl
    exact hguards g hg hgsign
  have hsign : g.isOpposite l = true := by
    rw [Literal.isOpposite_iff, hgsign]
    exact (hguards l hl).symm
  have hterms : g.term.subst r = l.term.subst r :=
    hlt.symm.trans (congrArg Literal.term (hground hl)).symm
  obtain ⟨e, he, s, habs, hes⟩ := hsaturated.exists_lifted hc hd hcd hg hl hsign hterms
  refine ⟨e, he, Clause.card_guards_lt (Clause.mem_guards.mpr ⟨hg, hgsign⟩) (s := s) ?_, ?_⟩
  · intro k hk hksign
    obtain ⟨j, hj, rfl⟩ := hes k hk
    rcases hj with ⟨hj, hjg⟩ | ⟨hj, -⟩
    · exact ⟨j, hj, hjg, rfl⟩
    · exact absurd hksign (hguards j hj)
  · intro k hk haccepted
    obtain ⟨j, hj, rfl⟩ := hes k hk
    rw [habs.literal_subst_subst] at haccepted
    rcases hj with ⟨hj, -⟩ | ⟨hj, hjl⟩
    · exact hnone j hj haccepted
    · rw [hground hj] at haccepted
      exact hothers j hj hjl (haccepted.mpr (hguards j hj))

/-- Under each substitution every clause has an accepted literal. -/
theorem Choice.exists_accepted {c : Clause} (hc : c ∈ held) :
    ∃ l ∈ c, (l.subst r).Accepted sign chosen := by
  induction hn : (c.guards sign).card using Nat.strong_induction_on generalizing c with
  | _ n ih =>
    by_cases hguards : c.Unguarded sign
    · exact hchoice.exists_accepted_of_unguarded hanchored r hc hguards
    simp only [Clause.Unguarded, not_forall, not_not] at hguards
    obtain ⟨g, hg, hgsign⟩ := hguards
    by_contra hnone
    have hnone : ∀ l ∈ c, ¬ (l.subst r).Accepted sign chosen :=
      fun l hl haccepted => hnone ⟨l, hl, haccepted⟩
    obtain ⟨e, he, hcard, hrest⟩ :=
      hchoice.exists_fewer_guards hsaturated hanchored r hc hnone hg hgsign
    obtain ⟨k, hk, haccepted⟩ := ih _ (hn ▸ hcard) he rfl
    exact hrest k hk haccepted

end Choice

section Herbrand

/-- Terms denote themselves; chosen are the true terms if guards are negative, else the false. -/
def herbrand (sign : Bool) (chosen : Finset Term) : Structure where
  Carrier := Term
  nonempty := ⟨.const ""⟩
  constant := .const
  function f ts := .app ⟨f, ts.length⟩ ts
  isTrue t := t ∈ chosen ↔ sign = false

variable {sign : Bool} {chosen : Finset Term}

theorem eval_herbrand {a : (herbrand sign chosen).Assignment} {r : Substitution} {t : Term}
    (ht : t.aritiesMatch = true) (hr : ∀ v, t.mentions v = true → r.value v = a v) :
    (herbrand sign chosen).eval a t = t.subst r := by
  induction t with
  | const n => rfl
  | var n => exact (hr n ((Term.mentions_var n n).mpr rfl)).symm
  | app f ts ih =>
    obtain ⟨hf, hts⟩ := (Term.aritiesMatch_app f ts).mp ht
    have hargs : ts.map ((herbrand sign chosen).eval a) = ts.map (Term.subst r) := by
      apply List.map_congr_left
      intro t ht
      exact ih t ht (hts t ht) fun v hv => hr v ((Term.mentions_app v f ts).mpr ⟨t, ht, hv⟩)
    rw [Structure.eval_app, hargs, Term.subst_app]
    simp [herbrand, ← hf]

theorem satisfies_herbrand {a : (herbrand sign chosen).Assignment} {r : Substitution} {l : Literal}
    (hl : l.term.aritiesMatch = true) (hr : ∀ v, l.term.mentions v = true → r.value v = a v)
    (haccepted : (l.subst r).Accepted sign chosen) : (herbrand sign chosen).Satisfies a l := by
  unfold Structure.Satisfies
  rw [eval_herbrand hl hr]
  unfold Literal.Accepted Literal.subst at haccepted
  simp only [herbrand, haccepted]
  cases l.positive <;> cases sign <;> simp

end Herbrand

/-- If a search over anchored clauses ends saturated without the empty clause, the given clauses
and the negated query have a model. -/
theorem Saturation.Derivable.exists_model {given : ClauseSet} {query : Literal} {h : Holding}
    (hh : Derivable given query h) (hempty : ¬ .empty ∈ h.clauses)
    (hsaturated : Saturated h.clauses) {sign : Bool}
    (hanchored : ∀ c ∈ (Holding.start given query).clauses, c.Anchored sign)
    (harities : ∀ c ∈ (Holding.start given query).clauses, ∀ l ∈ c, l.term.aritiesMatch = true) :
    ∃ M : Structure.{0}, ∀ c ∈ (Holding.start given query).clauses, M.Valid c := by
  have hheld : ∀ c ∈ h.clauses, c.Anchored sign :=
    hh.forall_mem hanchored fun _ => Clause.anchored_of_mem_resolvents
  obtain ⟨chosen, hchoice⟩ := exists_choice sign hempty
  refine ⟨herbrand sign chosen, fun c hc a => ?_⟩
  obtain ⟨r, hr⟩ := Substitution.exists_value_eq a (c.toList.flatMap (·.term.occurrences))
  obtain ⟨l, hl, hacc⟩ := hchoice.exists_accepted hsaturated hheld r (hh.mem_of_mem_start hc)
  refine ⟨l, hl, satisfies_herbrand (harities c hc l hl) (fun v hv => hr v ?_) hacc⟩
  exact List.mem_flatMap.mpr ⟨l, hl, (Term.mem_occurrences_iff l.term).mpr hv⟩

end Clausal
