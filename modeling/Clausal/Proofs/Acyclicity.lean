import Mathlib.Data.List.Chain
import Mathlib.Data.List.Perm.Subperm
import Mathlib.Logic.Function.Iterate
import Mathlib.Logic.Relation
import Clausal.Proofs.Composition

/-!
# Acyclic substitutions

Bindings may mention bound variables, as long as no chain of them leads back to its start. Applied
as many times as it has bindings, such a substitution leaves a term that it no longer changes.
-/

namespace Clausal.Substitution

set_option autoImplicit false

def Leads (s : Substitution) (v w : String) : Prop :=
  ∃ b, s.get? v = some b ∧ b.mentions w = true

def Acyclic (s : Substitution) : Prop := ∀ v, ¬ Relation.TransGen s.Leads v v

/-- Applying the bindings again and again turns `t` into `e`, which they no longer change. -/
def Settles (s : Substitution) (t e : Term) : Prop :=
  (∃ n, (Term.subst s)^[n] t = e) ∧ e.subst s = e

theorem Leads.get?_ne_none {s : Substitution} {v w : String} (h : s.Leads v w) :
    s.get? v ≠ none := by
  obtain ⟨b, hb, -⟩ := h
  rw [hb]
  exact Option.some_ne_none b

theorem mentions_value_iff {s : Substitution} {v w : String} :
    (s.value v).mentions w = true ↔ (s.get? v = none ∧ v = w) ∨ s.Leads v w := by
  cases hb : s.get? v with
  | none => simp [value_of_get?_eq_none hb, Leads, hb]
  | some b => simp [value_of_get?_eq_some hb, Leads, hb]

theorem get?_ne_none_of_transGen {s : Substitution} {v w : String}
    (h : Relation.TransGen s.Leads v w) : s.get? v ≠ none := by
  obtain ⟨x, hvx, -⟩ := Relation.TransGen.head'_iff.mp h
  exact hvx.get?_ne_none

/-- Bindings are acyclic if the variables can be numbered so that each binding mentions only
variables with smaller numbers. -/
theorem acyclic_of_rank {s : Substitution} (rank : String → Nat)
    (h : ∀ p ∈ s.toList, ∀ w ∈ p.2.occurrences, rank w < rank p.1) : s.Acyclic := by
  have hstep : ∀ v w, s.Leads v w → rank w < rank v := by
    rintro v w ⟨b, hb, hw⟩
    exact h (v, b) (SortedMap.get?_eq_some_iff.mp hb) w ((Term.mem_occurrences_iff b).mpr hw)
  have hpath : ∀ v w, Relation.TransGen s.Leads v w → rank w < rank v := by
    intro v w hvw
    induction hvw with
    | single hvw => exact hstep _ _ hvw
    | tail _ hwx ih => exact Nat.lt_trans (hstep _ _ hwx) ih
  intro v hv
  exact Nat.lt_irrefl _ (hpath v v hv)

section Chains

variable {s : Substitution}

/-- A bound variable that is left after `n` applications ends a chain of `n` bindings. -/
theorem exists_chain_of_mentions_iterate {n : Nat} {t : Term} {w : String}
    (h : ((Term.subst s)^[n] t).mentions w = true) (hw : s.get? w ≠ none) :
    ∃ ws : List String, ws.length = n ∧ (w :: ws).IsChain (fun x y => s.Leads y x) ∧
      ∀ x ∈ w :: ws, s.get? x ≠ none := by
  -- the last application is taken off first, so the chain is built from its end `w`
  induction n generalizing w with
  | zero => exact ⟨[], rfl, List.isChain_singleton w, by simpa using hw⟩
  | succ n ih =>
    rw [Function.iterate_succ_apply', Term.mentions_subst] at h
    obtain ⟨v, hv, hvw⟩ := h
    rcases mentions_value_iff.mp hvw with ⟨hfree, rfl⟩ | hleads
    · exact absurd hfree hw
    · obtain ⟨ws, hlength, hchain, hbound⟩ := ih hv hleads.get?_ne_none
      exact ⟨v :: ws, congrArg Nat.succ hlength, hchain.cons_cons hleads,
        List.forall_mem_cons.mpr ⟨hw, hbound⟩⟩

theorem mem_keys_of_get?_ne_none {v : String} (h : s.get? v ≠ none) : v ∈ s.bindings.keys := by
  obtain ⟨b, hb⟩ := Option.ne_none_iff_exists'.mp h
  exact List.mem_map_of_mem (f := Prod.fst) (SortedMap.get?_eq_some_iff.mp hb)

variable (hs : s.Acyclic)
include hs

theorem Acyclic.nodup_of_isChain {ws : List String}
    (h : ws.IsChain (fun x y => s.Leads y x)) : ws.Nodup := by
  have hpaths : ws.IsChain (fun x y => Relation.TransGen s.Leads y x) :=
    h.imp fun _ _ hxy => Relation.TransGen.single hxy
  have htrans : IsTrans String (fun x y => Relation.TransGen s.Leads y x) :=
    ⟨fun _ _ _ hxy hyz => hyz.trans hxy⟩
  apply (List.isChain_iff_pairwise.mp hpaths).imp
  rintro x _ hxy rfl
  exact hs x hxy

theorem Acyclic.length_le_of_isChain {ws : List String}
    (h : ws.IsChain (fun x y => s.Leads y x)) (hbound : ∀ x ∈ ws, s.get? x ≠ none) :
    ws.length ≤ s.size := by
  have hsub : ws ⊆ s.bindings.keys := fun x hx => mem_keys_of_get?_ne_none (hbound x hx)
  have hle := ((hs.nodup_of_isChain h).subperm hsub).length_le
  rwa [SortedMap.keys, List.length_map] at hle

theorem Acyclic.get?_of_mentions_iterate {t : Term} {w : String}
    (h : ((Term.subst s)^[s.size] t).mentions w = true) : s.get? w = none := by
  by_contra hw
  obtain ⟨ws, hlength, hchain, hbound⟩ := exists_chain_of_mentions_iterate h hw
  have hle := hs.length_le_of_isChain hchain hbound
  rw [List.length_cons, hlength] at hle
  omega

theorem Acyclic.subst_iterate (t : Term) :
    ((Term.subst s)^[s.size] t).subst s = (Term.subst s)^[s.size] t :=
  Term.subst_of_unbound fun _ hw => hs.get?_of_mentions_iterate hw

end Chains

theorem exists_subst_eq_iterate (s : Substitution) (n : Nat) :
    ∃ r : Substitution, ∀ t : Term, t.subst r = (Term.subst s)^[n] t := by
  induction n with
  | zero => exact ⟨.empty, Term.subst_empty⟩
  | succ n ih =>
    obtain ⟨r, hr⟩ := ih
    refine ⟨s.compose r, fun t => ?_⟩
    rw [Term.subst_compose, hr, Function.iterate_succ_apply]

/-- One substitution gives every term what an acyclic one turns it into in the end. -/
theorem Acyclic.exists_resolution {s : Substitution} (hs : s.Acyclic) :
    ∃ r : Substitution, r.Absorbs s ∧ ∀ t : Term, s.Settles t (t.subst r) := by
  obtain ⟨r, hr⟩ := exists_subst_eq_iterate s s.size
  refine ⟨r, fun v => ?_, fun t => ⟨⟨s.size, (hr t).symm⟩, ?_⟩⟩
  · calc (s.value v).subst r = (Term.subst s)^[s.size] ((Term.var v).subst s) := hr _
      _ = ((Term.subst s)^[s.size] (.var v)).subst s := by
        rw [← Function.iterate_succ_apply, Function.iterate_succ_apply']
      _ = (Term.subst s)^[s.size] (.var v) := hs.subst_iterate _
      _ = r.value v := (hr (.var v)).symm
  · rw [hr, hs.subst_iterate]

theorem Settles.aritiesMatch {s : Substitution} {t e : Term} (h : s.Settles t e)
    (ht : t.aritiesMatch = true) (hs : ∀ v b, s.get? v = some b → b.aritiesMatch = true) :
    e.aritiesMatch = true := by
  obtain ⟨⟨n, rfl⟩, -⟩ := h
  induction n with
  | zero => exact ht
  | succ n ih =>
    rw [Function.iterate_succ_apply']
    exact Term.aritiesMatch_subst ih hs

section Bind

variable {s : Substitution} {v : String} {t : Term}

theorem leads_bind_self {y : String} :
    (s.bind v t).Leads v y ↔ (t.subst s).mentions y = true := by
  simp [Leads, get?_bind]

/-- A variable other than the new one keeps what it leads to, except that the new variable gives
way to what its own term leads to. -/
theorem leads_bind_iff {x y : String} (hx : x ≠ v) : (s.bind v t).Leads x y ↔
    (s.Leads x y ∧ y ≠ v) ∨ (s.Leads x v ∧ (t.subst s).mentions y = true) := by
  unfold Leads
  rw [get?_bind, if_neg hx]
  cases s.get? x with
  | none => simp
  | some c =>
    simp only [Option.map_some, Option.some.injEq, exists_eq_left', Term.mentions_subst,
      mentions_value_single]
    constructor
    · rintro ⟨z, hz, ⟨rfl, hy⟩ | ⟨rfl, hy⟩⟩
      · exact Or.inl ⟨hz, hy⟩
      · exact Or.inr ⟨hz, hy⟩
    · rintro (⟨hz, hy⟩ | ⟨hz, hy⟩)
      · exact ⟨y, hz, Or.inl ⟨rfl, hy⟩⟩
      · exact ⟨v, hz, Or.inr ⟨rfl, hy⟩⟩

/-- A variable of the term is `y` or leads to it. -/
def Reaches (s : Substitution) (t : Term) (y : String) : Prop :=
  ∃ w, t.mentions w = true ∧ Relation.ReflTransGen s.Leads w y

theorem reaches_of_mentions_subst {y : String} (h : (t.subst s).mentions y = true) :
    s.Reaches t y := by
  obtain ⟨w, hw, hwy⟩ := Term.mentions_subst.mp h
  rcases mentions_value_iff.mp hwy with ⟨-, rfl⟩ | hleads
  · exact ⟨w, hw, Relation.ReflTransGen.refl⟩
  · exact ⟨w, hw, Relation.ReflTransGen.single hleads⟩

theorem Reaches.exists_mentions_subst {y : String} (h : s.Reaches t y) (hy : s.get? y = none) :
    ∃ x, (t.subst s).mentions x = true ∧ Relation.ReflTransGen s.Leads x y := by
  obtain ⟨w, hw, hwy⟩ := h
  rcases Relation.ReflTransGen.cases_head hwy with rfl | ⟨x, hwx, hxy⟩
  · have hself := mentions_value_iff.mpr (Or.inl ⟨hy, rfl⟩)
    exact ⟨w, Term.mentions_subst.mpr ⟨w, hw, hself⟩, Relation.ReflTransGen.refl⟩
  · have hnext := mentions_value_iff.mpr (Or.inr hwx)
    exact ⟨x, Term.mentions_subst.mpr ⟨w, hw, hnext⟩, hxy⟩

theorem Reaches.tail {x y : String} (h : s.Reaches t x) (hxy : s.Leads x y) : s.Reaches t y := by
  obtain ⟨w, hw, hwx⟩ := h
  exact ⟨w, hw, hwx.tail hxy⟩

/-- Where the new term leads, the bindings are the old ones. -/
theorem Reaches.transGen_of_bind {x y : String} (hx : s.Reaches t x) (ht : ¬ s.Reaches t v)
    (h : Relation.TransGen (s.bind v t).Leads x y) :
    Relation.TransGen s.Leads x y ∧ s.Reaches t y := by
  have hstep {x y : String} (hx : s.Reaches t x) (h : (s.bind v t).Leads x y) : s.Leads x y := by
    have hxv : x ≠ v := by
      rintro rfl
      exact ht hx
    rcases (leads_bind_iff hxv).mp h with ⟨h, -⟩ | ⟨h, -⟩
    · exact h
    · exact absurd (hx.tail h) ht
  induction h with
  | single h => exact ⟨.single (hstep hx h), hx.tail (hstep hx h)⟩
  | tail _ h ih => exact ⟨ih.1.tail (hstep ih.2 h), ih.2.tail (hstep ih.2 h)⟩

theorem reaches_or_transGen_of_bind {x y : String}
    (h : Relation.TransGen (s.bind v t).Leads x y) :
    s.Reaches t y ∨ Relation.TransGen s.Leads x y := by
  have hstep {x y : String} (h : (s.bind v t).Leads x y) : s.Reaches t y ∨ s.Leads x y := by
    by_cases hx : x = v
    · subst hx
      exact Or.inl (reaches_of_mentions_subst (leads_bind_self.mp h))
    · rcases (leads_bind_iff hx).mp h with ⟨h, -⟩ | ⟨-, h⟩
      · exact Or.inr h
      · exact Or.inl (reaches_of_mentions_subst h)
  induction h with
  | single h => exact (hstep h).imp_right .single
  | tail _ h ih =>
    rcases hstep h with h | h
    · exact Or.inl h
    · exact ih.imp (fun hy => hy.tail h) (fun hxy => hxy.tail h)

theorem Acyclic.bind (hs : s.Acyclic) (ht : ¬ s.Reaches t v) : (s.bind v t).Acyclic := by
  intro x hx
  rcases reaches_or_transGen_of_bind hx with h | h
  · exact hs x (h.transGen_of_bind ht hx).1
  · exact hs x h

variable (hv : s.get? v = none)
include hv

/-- A chain of old bindings up to `v` goes on, after `v` is bound, to what the new term mentions;
one that ends elsewhere stays. -/
theorem transGen_bind {x y z : String} (h : Relation.TransGen s.Leads x z)
    (hz : (z = y ∧ y ≠ v) ∨ (z = v ∧ (t.subst s).mentions y = true)) :
    Relation.TransGen (s.bind v t).Leads x y := by
  have hne {x : String} (hx : s.get? x ≠ none) : x ≠ v := by
    rintro rfl
    exact hx hv
  induction h using Relation.TransGen.head_induction_on with
  | @single x h =>
    apply Relation.TransGen.single
    apply (leads_bind_iff (hne h.get?_ne_none)).mpr
    rcases hz with ⟨rfl, hy⟩ | ⟨rfl, hy⟩
    · exact Or.inl ⟨h, hy⟩
    · exact Or.inr ⟨h, hy⟩
  | @head x x' h hpath ih =>
    have hx' : x' ≠ v := hne (get?_ne_none_of_transGen hpath)
    exact ih.head ((leads_bind_iff (hne h.get?_ne_none)).mpr (Or.inl ⟨h, hx'⟩))

/-- Binding a free variable leaves the bindings acyclic exactly if they were and the new term does
not lead back to the variable. -/
theorem acyclic_bind_iff : (s.bind v t).Acyclic ↔ s.Acyclic ∧ ¬ s.Reaches t v := by
  refine ⟨fun h => ⟨?_, ?_⟩, fun h => h.1.bind h.2⟩
  · intro x hx
    have hxv : x ≠ v := by
      rintro rfl
      exact get?_ne_none_of_transGen hx hv
    exact h x (transGen_bind hv hx (Or.inl ⟨rfl, hxv⟩))
  · -- the binding is `t.subst s`, not `t`: the circle starts at the variable after the first link
    intro ht
    obtain ⟨x, hx, hxv⟩ := ht.exists_mentions_subst hv
    rcases Relation.reflTransGen_iff_eq_or_transGen.mp hxv with heq | hxv
    · exact h v (.single (leads_bind_self.mpr (heq ▸ hx)))
    · exact h x (transGen_bind hv hxv (Or.inr ⟨rfl, hx⟩))

end Bind

end Clausal.Substitution
