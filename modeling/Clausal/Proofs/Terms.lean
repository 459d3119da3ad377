import Clausal.Substitution

/-!
# Induction on terms, and declared arities

The induction hypothesis for an application speaks of every member of its list of arguments.
`normalize` makes every symbol declare the number of arguments it has.
-/

namespace Clausal.Term

set_option autoImplicit false

@[elab_as_elim, induction_eliminator]
theorem induction {P : Term → Prop} (const : ∀ n, P (const n)) (var : ∀ n, P (var n))
    (app : ∀ f ts, (∀ t ∈ ts, P t) → P (app f ts)) (t : Term) : P t := by
  refine @Term.rec P (fun ts => ∀ t ∈ ts, P t) const var app ?_ ?_ t
  · intro t ht
    cases ht
  · intro t ts ht hts u hu
    rcases List.mem_cons.mp hu with rfl | hu
    · exact ht
    · exact hts u hu

@[simp] theorem mentions_const (v n : String) : (const n).mentions v = false := by
  simp [mentions]

@[simp] theorem mentions_var (v n : String) : (var n).mentions v = true ↔ n = v := by
  simp [mentions]

theorem mentionsIn_iff {v : String} {ts : List Term} :
    mentionsIn v ts = true ↔ ∃ t ∈ ts, t.mentions v = true := by
  induction ts with
  | nil => simp [mentionsIn]
  | cons t ts ih => simp [mentionsIn, ih]

@[simp] theorem mentions_app (v : String) (f : Symbol) (ts : List Term) :
    (app f ts).mentions v = true ↔ ∃ t ∈ ts, t.mentions v = true := by
  rw [mentions, mentionsIn_iff]

theorem areGround_iff_forall {ts : List Term} :
    areGround ts = true ↔ ∀ t ∈ ts, t.isGround = true := by
  induction ts with
  | nil => simp [areGround]
  | cons t ts ih => simp [areGround, ih]

mutual

/-- The term in which every symbol declares the number of arguments it has. -/
def normalize : Term → Term
  | const n => const n
  | var n => var n
  | app f ts => app ⟨f.name, ts.length⟩ (normalizeArgs ts)

def normalizeArgs : List Term → List Term
  | [] => []
  | t :: ts => normalize t :: normalizeArgs ts

end

mutual

def aritiesMatch : Term → Bool
  | const _ => true
  | var _ => true
  | app f ts => f.arity = ts.length && aritiesMatchIn ts

def aritiesMatchIn : List Term → Bool
  | [] => true
  | t :: ts => aritiesMatch t && aritiesMatchIn ts

end

theorem normalizeArgs_eq_map (ts : List Term) : normalizeArgs ts = ts.map normalize := by
  induction ts with
  | nil => rfl
  | cons t ts ih => simp [normalizeArgs, ih]

@[simp] theorem normalize_app (f : Symbol) (ts : List Term) :
    (app f ts).normalize = app ⟨f.name, ts.length⟩ (ts.map normalize) := by
  rw [normalize, normalizeArgs_eq_map]

@[simp] theorem mentions_normalize {v : String} {t : Term} :
    t.normalize.mentions v = true ↔ t.mentions v = true := by
  induction t with
  | const n => rfl
  | var n => rfl
  | app f ts ih =>
    rw [normalize_app, mentions_app, mentions_app]
    constructor
    · rintro ⟨u, hu, huv⟩
      obtain ⟨t, ht, rfl⟩ := List.mem_map.mp hu
      exact ⟨t, ht, (ih t ht).mp huv⟩
    · rintro ⟨t, ht, htv⟩
      exact ⟨t.normalize, List.mem_map_of_mem ht, (ih t ht).mpr htv⟩

theorem aritiesMatchIn_iff {ts : List Term} :
    aritiesMatchIn ts = true ↔ ∀ t ∈ ts, t.aritiesMatch = true := by
  induction ts with
  | nil => simp [aritiesMatchIn]
  | cons t ts ih => simp [aritiesMatchIn, ih]

@[simp] theorem aritiesMatch_app (f : Symbol) (ts : List Term) :
    (app f ts).aritiesMatch = true ↔
      f.arity = ts.length ∧ ∀ t ∈ ts, t.aritiesMatch = true := by
  simp [aritiesMatch, aritiesMatchIn_iff]

theorem normalize_of_aritiesMatch {t : Term} (h : t.aritiesMatch = true) : t.normalize = t := by
  induction t with
  | const n => rfl
  | var n => rfl
  | app f ts ih =>
    obtain ⟨hf, hts⟩ := (aritiesMatch_app f ts).mp h
    have hargs : ts.map normalize = ts := by
      rw [List.map_congr_left (fun t ht => ih t ht (hts t ht)), List.map_id']
    rw [normalize_app, hargs, ← hf]

/-- Where declarations are right, terms that differ in them at most are equal. -/
theorem eq_of_normalize_eq {t u : Term} (ht : t.aritiesMatch = true) (hu : u.aritiesMatch = true)
    (h : t.normalize = u.normalize) : t = u := by
  rw [← normalize_of_aritiesMatch ht, h, normalize_of_aritiesMatch hu]

@[simp] theorem subst_const (s : Substitution) (n : String) : (const n).subst s = const n := rfl

@[simp] theorem subst_var (s : Substitution) (n : String) : (var n).subst s = s.value n := rfl

@[simp] theorem subst_app (s : Substitution) (f : Symbol) (ts : List Term) :
    (app f ts).subst s = app f (ts.map (subst s)) := by
  rw [subst, substArgs_eq_map]

end Clausal.Term
