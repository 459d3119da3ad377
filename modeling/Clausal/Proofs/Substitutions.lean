import Clausal.Proofs.Terms

/-!
# The algebra of substitutions

`Absorbs` says that one substitution has another one's bindings already worked in. An idempotent
substitution absorbs itself, and `bind` keeps it so when the variable is new and does not stand in
the term.
-/

namespace Clausal

set_option autoImplicit false

namespace Substitution

theorem binds_iff {s : Substitution} {v : String} :
    s.binds v = true ↔ ∃ t, s.get? v = some t := by
  unfold binds SortedMap.contains
  exact Option.isSome_iff_exists

theorem binds_eq_false_iff {s : Substitution} {v : String} :
    s.binds v = false ↔ s.get? v = none := by
  unfold binds SortedMap.contains
  exact Option.isSome_eq_false_iff.trans Option.isNone_iff_eq_none

theorem value_of_get?_eq_some {s : Substitution} {v : String} {t : Term}
    (h : s.get? v = some t) : s.value v = t := by
  simp [value, h]

theorem value_of_get?_eq_none {s : Substitution} {v : String} (h : s.get? v = none) :
    s.value v = .var v := by
  simp [value, h]

/-- What holds of a variable and of all bound terms holds of the variable's value. -/
theorem value_induction {Q : Term → Prop} {s : Substitution} {v : String} (hv : Q (.var v))
    (hs : ∀ w b, s.get? w = some b → Q b) : Q (s.value v) := by
  cases hsv : s.get? v with
  | none => rwa [value_of_get?_eq_none hsv]
  | some b =>
    rw [value_of_get?_eq_some hsv]
    exact hs v b hsv

@[simp] theorem value_empty (v : String) : empty.value v = .var v := rfl

theorem value_insert (s : Substitution) (v w : String) (t : Term) :
    (s.insert v t).value w = if w = v then t else s.value w := by
  unfold value
  rw [get?_insert]
  split <;> rfl

/-- A substitution can give finitely many variables any terms. -/
theorem exists_value_eq (a : String → Term) (vs : List String) :
    ∃ r : Substitution, ∀ v ∈ vs, r.value v = a v := by
  induction vs with
  | nil => exact ⟨.empty, fun v hv => absurd hv List.not_mem_nil⟩
  | cons w vs ih =>
    obtain ⟨r, hr⟩ := ih
    refine ⟨r.insert w (a w), fun v hv => ?_⟩
    rw [value_insert]
    split
    · rw [‹v = w›]
    · exact hr v ((List.mem_cons.mp hv).resolve_left ‹_›)

theorem value_single (v w : String) (t : Term) :
    (single v t).value w = if w = v then t else .var w := by
  unfold value
  rw [get?_single]
  split <;> rfl

theorem mentions_value_single {v w z : String} {t : Term} :
    ((single v t).value z).mentions w = true ↔
      (z = w ∧ w ≠ v) ∨ (z = v ∧ t.mentions w = true) := by
  rw [value_single]
  by_cases hz : z = v
  · rw [if_pos hz]
    constructor
    · exact fun h => Or.inr ⟨hz, h⟩
    · rintro (⟨rfl, h⟩ | ⟨-, h⟩)
      · exact absurd hz h
      · exact h
  · rw [if_neg hz, Term.mentions_var]
    constructor
    · rintro rfl
      exact Or.inl ⟨rfl, hz⟩
    · rintro (⟨h, -⟩ | ⟨h, -⟩)
      · exact h
      · exact absurd h hz

end Substitution

namespace Term

@[simp] theorem subst_empty (t : Term) : t.subst .empty = t := by
  induction t with
  | const n => rfl
  | var n => rfl
  | app f ts ih =>
    rw [subst_app, List.map_congr_left ih, List.map_id']

/-- Two substitutions make the same of a term exactly when they give its variables the same. -/
theorem subst_eq_subst_iff {s r : Substitution} {t : Term} :
    t.subst s = t.subst r ↔ ∀ v, t.mentions v = true → s.value v = r.value v := by
  induction t with
  | const n => simp
  | var n => simp
  | app f ts ih =>
    rw [subst_app, subst_app, app.injEq, List.map_inj_left]
    constructor
    · rintro ⟨-, h⟩ v hv
      obtain ⟨t, ht, htv⟩ := (mentions_app v f ts).mp hv
      exact (ih t ht).mp (h t ht) v htv
    · intro h
      refine ⟨rfl, fun t ht => (ih t ht).mpr fun v hv => ?_⟩
      exact h v ((mentions_app v f ts).mpr ⟨t, ht, hv⟩)

/-- A term in which no bound variable stands is not changed. -/
theorem subst_of_unbound {s : Substitution} {t : Term}
    (h : ∀ v, t.mentions v = true → s.get? v = none) : t.subst s = t := by
  have hempty : t.subst s = t.subst .empty := by
    rw [subst_eq_subst_iff]
    intro v hv
    rw [Substitution.value_of_get?_eq_none (h v hv), Substitution.value_empty]
  rw [hempty, subst_empty]

theorem subst_of_not_mentions {t : Term} (h : ∀ v, ¬ t.mentions v = true) (r : Substitution) :
    t.subst r = t := by
  apply subst_of_unbound
  intro v hv
  exact absurd hv (h v)

theorem subst_subst_of_value {q s r : Substitution}
    (h : ∀ v, q.value v = (s.value v).subst r) (t : Term) :
    t.subst q = (t.subst s).subst r := by
  induction t with
  | const n => rfl
  | var n => exact h n
  | app f ts ih =>
    simp only [subst_app, List.map_map, app.injEq, true_and]
    exact List.map_congr_left ih

/-- The variables of an instance are those of the values of the term's variables. -/
theorem mentions_subst {s : Substitution} {w : String} {t : Term} :
    (t.subst s).mentions w = true ↔
      ∃ v, t.mentions v = true ∧ (s.value v).mentions w = true := by
  induction t with
  | const n => simp
  | var n => simp
  | app f ts ih =>
    rw [subst_app, mentions_app]
    constructor
    · rintro ⟨u, hu, huw⟩
      obtain ⟨t, ht, rfl⟩ := List.mem_map.mp hu
      obtain ⟨v, hv, hvw⟩ := (ih t ht).mp huw
      exact ⟨v, (mentions_app v f ts).mpr ⟨t, ht, hv⟩, hvw⟩
    · rintro ⟨v, hv, hvw⟩
      obtain ⟨t, ht, htv⟩ := (mentions_app v f ts).mp hv
      exact ⟨t.subst s, List.mem_map_of_mem ht, (ih t ht).mpr ⟨v, htv, hvw⟩⟩

theorem aritiesMatch_subst {s : Substitution} {t : Term} (ht : t.aritiesMatch = true)
    (hs : ∀ v b, s.get? v = some b → b.aritiesMatch = true) :
    (t.subst s).aritiesMatch = true := by
  induction t with
  | const n => rfl
  | var n => exact Substitution.value_induction (Q := fun t => t.aritiesMatch = true) ht hs
  | app f ts ih =>
    obtain ⟨hf, hts⟩ := (aritiesMatch_app f ts).mp ht
    rw [subst_app, aritiesMatch_app, List.length_map]
    refine ⟨hf, fun u hu => ?_⟩
    obtain ⟨t, ht, rfl⟩ := List.mem_map.mp hu
    exact ih t ht (hts t ht)

end Term

namespace Substitution

/-- Doing `s` first makes no difference to `r`. -/
def Absorbs (r s : Substitution) : Prop := ∀ v, (s.value v).subst r = r.value v

theorem Absorbs.subst_subst {r s : Substitution} (h : r.Absorbs s) (t : Term) :
    (t.subst s).subst r = t.subst r :=
  (Term.subst_subst_of_value (fun v => (h v).symm) t).symm

theorem Absorbs.literal_subst_subst {r s : Substitution} (h : r.Absorbs s) (l : Literal) :
    (l.subst s).subst r = l.subst r := by
  unfold Literal.subst
  rw [h.subst_subst]

theorem absorbs_iff {r s : Substitution} :
    r.Absorbs s ↔ ∀ v t, s.get? v = some t → r.value v = t.subst r := by
  constructor
  · intro h v t hv
    rw [← h v, value_of_get?_eq_some hv]
  · intro h v
    cases hv : s.get? v with
    | none => rw [value_of_get?_eq_none hv, Term.subst_var]
    | some t => rw [value_of_get?_eq_some hv, h v t hv]

/-- After one application no bound variable is left in the term. -/
def Completes (s : Substitution) (t : Term) : Prop :=
  ∀ w, (t.subst s).mentions w = true → s.get? w = none

theorem completes_of_unbound {s : Substitution} {t : Term}
    (h : ∀ w, t.mentions w = true → s.get? w = none) : s.Completes t := by
  intro w hw
  rw [Term.subst_of_unbound h] at hw
  exact h w hw

/-- No bound variable stands in a bound term. -/
def Idempotent (s : Substitution) : Prop :=
  ∀ v b w, s.get? v = some b → s.binds w = true → b.mentions w = false

theorem idempotent_empty : empty.Idempotent := by
  intro v b w hv
  simp at hv

theorem idempotent_single {v : String} {t : Term} (h : t.mentions v = false) :
    (single v t).Idempotent := by
  intro x b w hx hw
  rw [get?_single] at hx
  obtain ⟨c, hc⟩ := binds_iff.mp hw
  rw [get?_single] at hc
  split at hx
  · split at hc
    · rename_i hwv
      rw [← Option.some.inj hx, hwv, h]
    · cases hc
  · cases hx

namespace Idempotent

variable {s : Substitution} (hs : s.Idempotent)
include hs

theorem completes (t : Term) : s.Completes t := by
  intro w h
  obtain ⟨v, -, hvw⟩ := Term.mentions_subst.mp h
  rw [← binds_eq_false_iff]
  cases hv : s.get? v with
  | none =>
    rw [value_of_get?_eq_none hv, Term.mentions_var] at hvw
    rw [← hvw, binds_eq_false_iff, hv]
  | some b =>
    rw [value_of_get?_eq_some hv] at hvw
    rw [Bool.eq_false_iff]
    intro hw
    rw [hs v b w hv hw] at hvw
    exact Bool.false_ne_true hvw

theorem subst_subst (t : Term) : (t.subst s).subst s = t.subst s :=
  Term.subst_of_unbound (hs.completes t)

theorem absorbs_self : s.Absorbs s := fun v => hs.subst_subst (.var v)

end Idempotent

section Bind

variable {s : Substitution} {v : String} {t : Term}

/-- Binding a new variable is putting its term into all values. -/
theorem value_bind (hv : s.get? v = none) (w : String) :
    (s.bind v t).value w = (s.value w).subst (single v (t.subst s)) := by
  unfold value
  rw [get?_bind]
  by_cases hw : w = v
  · subst hw
    simp [hv, value_single]
  · cases hsw : s.get? w with
    | none => simp [hw, value_single]
    | some b => simp [hw]

theorem value_bind_self : (s.bind v t).value v = t.subst s := by
  unfold value
  simp [get?_bind]

theorem binds_bind {w : String} : (s.bind v t).binds w = true ↔ w = v ∨ s.binds w = true := by
  rw [binds_iff, binds_iff, get?_bind]
  by_cases hw : w = v
  · simp [hw]
  · cases s.get? w <;> simp [hw]

theorem absorbs_single {r : Substitution} (h : r.value v = t.subst r) : r.Absorbs (single v t) := by
  intro w
  rw [value_single]
  split
  · rename_i hw
    rw [hw, h]
  · rfl

theorem Absorbs.bind {r : Substitution} (hr : r.Absorbs s) (hv : s.get? v = none)
    (h : r.value v = t.subst r) : r.Absorbs (s.bind v t) := by
  intro w
  have hsingle : r.Absorbs (single v (t.subst s)) :=
    absorbs_single (by rw [hr.subst_subst, h])
  rw [value_bind hv, hsingle.subst_subst, hr w]

/-- What has the bindings with a new variable worked in has the old ones worked in. -/
theorem Absorbs.of_bind {r : Substitution} (h : r.Absorbs (s.bind v t)) (hv : s.get? v = none) :
    r.Absorbs s := by
  intro w
  have hsingle : r.Absorbs (single v (t.subst s)) :=
    absorbs_single (by rw [← h v, value_bind_self])
  rw [← hsingle.subst_subst, ← value_bind hv, h w]

theorem Completes.bind {b : Term} (ht : s.Completes t) (hv : s.get? v = none)
    (hb : ∀ w, b.mentions w = true → s.get? w = none) (hbv : b.mentions v = false) :
    (s.bind v b).Completes t := by
  have hfree {w : String} (hw : s.get? w = none) (hne : w ≠ v) : (s.bind v b).get? w = none := by
    rw [get?_bind, if_neg hne, hw]
    rfl
  intro w hw
  rw [Term.subst_subst_of_value (value_bind hv), Term.subst_of_unbound hb] at hw
  obtain ⟨z, hz, hzw⟩ := Term.mentions_subst.mp hw
  rcases mentions_value_single.mp hzw with ⟨rfl, hne⟩ | ⟨-, hbw⟩
  · exact hfree (ht z hz) hne
  · apply hfree (hb w hbw)
    rintro rfl
    rw [hbv] at hbw
    cases hbw

/-- Binding a new variable to a term that does not come to mention it keeps the bindings apart
from the bound variables. -/
theorem Idempotent.bind (hs : s.Idempotent) (ht : (t.subst s).mentions v = false) :
    (s.bind v t).Idempotent := by
  have apart : ∀ w, (s.bind v t).binds w = true → (t.subst s).mentions w = false := by
    intro w hw
    rcases binds_bind.mp hw with rfl | hw
    · exact ht
    · rw [Bool.eq_false_iff]
      intro h
      rw [binds_iff, hs.completes t w h] at hw
      simp at hw
  intro x b w hx hw
  rw [get?_bind] at hx
  split at hx
  · obtain rfl := Option.some.inj hx
    exact apart w hw
  · obtain ⟨c, hc, rfl⟩ := Option.map_eq_some_iff.mp hx
    rw [Bool.eq_false_iff]
    intro h
    obtain ⟨y, hy, hyw⟩ := Term.mentions_subst.mp h
    rcases mentions_value_single.mp hyw with ⟨rfl, hyv⟩ | ⟨-, hyw⟩
    · -- the old binding mentions `y`, which is neither `v` nor bound before
      rcases binds_bind.mp hw with h | h
      · exact hyv h
      · rw [hs x c y hc h] at hy
        exact Bool.false_ne_true hy
    · rw [apart w hw] at hyw
      exact Bool.false_ne_true hyw

end Bind

end Substitution

end Clausal
