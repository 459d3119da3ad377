import Clausal.Clause
import Clausal.Proofs.Terms

/-!
# Clauses in canonical form

The order of terms and literals as a relation, beside the comparison that computes it. The literals
of a clause have one increasing sequence, whatever list they came in.
-/

namespace Clausal

set_option autoImplicit false

/-- Names go by code point, a name before its extensions. -/
def NameBefore (m n : String) : Prop :=
  List.Lex (fun c d : Char => c.toNat < d.toNat) m.toList n.toList

inductive Term.Precedes : Term → Term → Prop where
  | const {m n : String} : NameBefore m n → Precedes (const m) (const n)
  | constVar (m n : String) : Precedes (const m) (var n)
  | constApp (m : String) (f : Symbol) (ts : List Term) : Precedes (const m) (app f ts)
  | var {m n : String} : NameBefore m n → Precedes (var m) (var n)
  | varApp (m : String) (f : Symbol) (ts : List Term) : Precedes (var m) (app f ts)
  | name {f g : Symbol} (ts us : List Term) :
    NameBefore f.name g.name → Precedes (app f ts) (app g us)
  | arity {f g : Symbol} (ts us : List Term) :
    f.name = g.name → f.arity < g.arity → Precedes (app f ts) (app g us)
  | args {f : Symbol} {ts us : List Term} :
    List.Lex Precedes ts us → Precedes (app f ts) (app f us)

inductive Literal.Precedes : Literal → Literal → Prop where
  | sign (t u : Term) : Precedes ⟨false, t⟩ ⟨true, u⟩
  | term {positive : Bool} {t u : Term} : t.Precedes u → Precedes ⟨positive, t⟩ ⟨positive, u⟩

/-- The comparison tells the order, which is strict and total. -/
structure TellsOrder {α : Type} (cmp : α → α → Ordering) (before : α → α → Prop) : Prop where
  lt_iff : ∀ a b, cmp a b = .lt ↔ before a b
  eq_iff : ∀ a b, cmp a b = .eq ↔ a = b
  gt_iff : ∀ a b, cmp a b = .gt ↔ before b a
  asymm : ∀ a b, before a b → ¬ before b a
  trans : ∀ a b c, before a b → before b c → before a c
  total : ∀ a b, before a b ∨ a = b ∨ before b a

theorem tellsOrder_of_lt_iff {α : Type} [Ord α] [Std.TransOrd α] [Std.LawfulEqOrd α]
    {before : α → α → Prop} (h : ∀ a b, compare a b = .lt ↔ before a b) :
    TellsOrder compare before where
  lt_iff := h
  eq_iff := fun a b => Std.LawfulEqCmp.compare_eq_iff_eq
  gt_iff := by
    intro a b
    rw [← h, Std.OrientedCmp.gt_iff_lt]
  asymm := by
    intro a b hab hba
    rw [← h] at hab hba
    exact Std.OrientedCmp.not_lt_of_lt hab hba
  trans := by
    intro a b c hab hbc
    rw [← h] at hab hbc ⊢
    exact Std.TransCmp.lt_trans hab hbc
  total := by
    intro a b
    cases hab : compare a b with
    | lt => exact Or.inl ((h a b).mp hab)
    | eq => exact Or.inr (Or.inl (Std.LawfulEqOrd.eq_of_compare hab))
    | gt => exact Or.inr (Or.inr ((h b a).mp (Std.OrientedCmp.gt_iff_lt.mp hab)))

section Relations

-- the order of characters is that of their code points by definition, and so are those of lists
-- and strings made from it
theorem compare_eq_lt_iff_nameBefore (m n : String) : compare m n = .lt ↔ NameBefore m n :=
  compareOfLessAndEq_eq_lt

theorem Symbol.compare_eq_lt_iff (f g : Symbol) :
    compare f g = .lt ↔ NameBefore f.name g.name ∨ f.name = g.name ∧ f.arity < g.arity := by
  rw [compare_def, Ordering.then_eq_lt, compare_eq_lt_iff_nameBefore,
    Std.LawfulEqCmp.compare_eq_iff_eq, Nat.compare_eq_lt]

namespace Term

theorem precedes_app_iff {f g : Symbol} {ts us : List Term} :
    (app f ts).Precedes (app g us) ↔
      compare f g = .lt ∨ f = g ∧ List.Lex Precedes ts us := by
  rw [Symbol.compare_eq_lt_iff]
  constructor
  · intro h
    cases h with
    | name _ _ hname => exact Or.inl (Or.inl hname)
    | arity _ _ hname harity => exact Or.inl (Or.inr ⟨hname, harity⟩)
    | args hargs => exact Or.inr ⟨rfl, hargs⟩
  · rintro ((hname | ⟨hname, harity⟩) | ⟨rfl, hargs⟩)
    · exact .name ts us hname
    · exact .arity ts us hname harity
    · exact .args hargs

theorem orderArgs_eq_lt_iff {ts : List Term}
    (ih : ∀ t ∈ ts, ∀ u, order t u = .lt ↔ t.Precedes u) (us : List Term) :
    orderArgs ts us = .lt ↔ List.Lex Precedes ts us := by
  induction ts generalizing us with
  | nil => cases us <;> simp [orderArgs]
  | cons t ts ihts =>
    cases us with
    | nil => simp [orderArgs]
    | cons u us =>
      have htail := ihts (fun v hv => ih v (List.mem_cons_of_mem t hv)) us
      rw [orderArgs, Ordering.then_eq_lt, ih t List.mem_cons_self u, htail,
        List.cons_lex_cons_iff, ← compare_def, Std.LawfulEqCmp.compare_eq_iff_eq]

theorem compare_eq_lt_iff (t u : Term) : compare t u = .lt ↔ t.Precedes u := by
  rw [compare_def]
  induction t generalizing u with
  | const m =>
    cases u with
    | const n =>
      rw [order, compare_eq_lt_iff_nameBefore]
      exact ⟨.const, fun h => by cases h; assumption⟩
    | var n => exact ⟨fun _ => .constVar m n, fun _ => rfl⟩
    | app g us => exact ⟨fun _ => .constApp m g us, fun _ => rfl⟩
  | var m =>
    cases u with
    | const n => exact ⟨fun h => (by cases h), fun h => (by cases h)⟩
    | var n =>
      rw [order, compare_eq_lt_iff_nameBefore]
      exact ⟨.var, fun h => by cases h; assumption⟩
    | app g us => exact ⟨fun _ => .varApp m g us, fun _ => rfl⟩
  | app f ts ih =>
    cases u with
    | const n => exact ⟨fun h => (by cases h), fun h => (by cases h)⟩
    | var n => exact ⟨fun h => (by cases h), fun h => (by cases h)⟩
    | app g us =>
      rw [order, Ordering.then_eq_lt, precedes_app_iff, orderArgs_eq_lt_iff ih,
        Std.LawfulEqCmp.compare_eq_iff_eq]

end Term

theorem Literal.compare_eq_lt_iff (l m : Literal) : compare l m = .lt ↔ l.Precedes m := by
  cases l with
  | mk positive t =>
  cases m with
  | mk positive' u =>
    rw [compare_def, Ordering.then_eq_lt, Term.compare_eq_lt_iff,
      Std.LawfulEqCmp.compare_eq_iff_eq]
    constructor
    · rintro (hsign | ⟨rfl, hterm⟩)
      · cases positive with
        | false =>
          cases positive' with
          | false => cases hsign
          | true => exact .sign t u
        | true => cases positive' <;> cases hsign
      · exact .term hterm
    · intro h
      cases h with
      | sign => exact Or.inl rfl
      | term hterm => exact Or.inr ⟨rfl, hterm⟩

theorem tellsOrder_term : TellsOrder (compare : Term → Term → Ordering) Term.Precedes :=
  tellsOrder_of_lt_iff Term.compare_eq_lt_iff

theorem tellsOrder_literal :
    TellsOrder (compare : Literal → Literal → Ordering) Literal.Precedes :=
  tellsOrder_of_lt_iff Literal.compare_eq_lt_iff

end Relations

namespace Clause

theorem ofList_eq_ofList_iff {ls ls' : List Literal} :
    ofList ls = ofList ls' ↔ ∀ l, l ∈ ls ↔ l ∈ ls' := by
  rw [ofList, ofList, mk.injEq, SortedSet.ofList_eq_ofList_iff]

theorem pairwise_toList (c : Clause) : c.toList.Pairwise Literal.Precedes :=
  c.literals.increasing.imp (fun {l m} => (Literal.compare_eq_lt_iff l m).mp)

/-- A clause has one increasing sequence of literals. -/
theorem eq_toList_of_pairwise {c : Clause} {ls : List Literal} (h : ls.Pairwise Literal.Precedes)
    (hmem : ∀ l, l ∈ ls ↔ l ∈ c) : ls = c.toList := by
  apply SortedSet.eq_of_pairwise_of_mem_iff _ c.literals.increasing hmem
  exact h.imp (fun {l m} => (Literal.compare_eq_lt_iff l m).mpr)

theorem without_ofList (ls : List Literal) (l : Literal) :
    (ofList ls).without l = ofList (ls.filter (· ≠ l)) := by
  apply eq_of_mem_iff
  intro m
  simp

/-- The comparisons of terms and of literals tell strict total orders. Lists with the same literals,
in any order and with any repetition, make one clause: the only increasing sequence of these
literals. Equality, membership and removal of a literal are those of sets. -/
theorem ofList_canonical (ls ls' : List Literal) :
    TellsOrder (compare : Term → Term → Ordering) Term.Precedes ∧
    TellsOrder (compare : Literal → Literal → Ordering) Literal.Precedes ∧
    ((∀ l, l ∈ ls ↔ l ∈ ls') → ofList ls = ofList ls' ∧
      (ofList ls).toList = (ofList ls').toList ∧ (ofList ls).text = (ofList ls').text) ∧
    (ofList ls).toList.Pairwise Literal.Precedes ∧
    (∀ ms : List Literal, ms.Pairwise Literal.Precedes → (∀ l, l ∈ ms ↔ l ∈ ls) →
      ms = (ofList ls).toList) ∧
    (ofList ls = ofList ls' ↔ ∀ l, l ∈ ls ↔ l ∈ ls') ∧
    (∀ l, decide (l ∈ ofList ls) = true ↔ l ∈ ls) ∧
    (∀ l, (ofList ls).without l = ofList (ls.filter (· ≠ l))) := by
  refine ⟨tellsOrder_term, tellsOrder_literal, ?_, pairwise_toList _, ?_, ofList_eq_ofList_iff, ?_,
    without_ofList ls⟩
  · intro same
    have heq : ofList ls = ofList ls' := ofList_eq_ofList_iff.mpr same
    exact ⟨heq, congrArg toList heq, congrArg text heq⟩
  · intro ms hpairwise hmem
    exact eq_toList_of_pairwise hpairwise (fun l => (hmem l).trans mem_ofList.symm)
  · intro l
    rw [decide_eq_true_iff, mem_ofList]

section Example

def stated : List Literal :=
  [⟨true, .compound "P" [.const "A"]⟩, ⟨false, .compound "Q" [.var "x"]⟩]

/-- The same literals in the other order, one of them twice. -/
def restated : List Literal :=
  [⟨false, .compound "Q" [.var "x"]⟩, ⟨true, .compound "P" [.const "A"]⟩,
    ⟨false, .compound "Q" [.var "x"]⟩]

theorem mem_stated_iff (l : Literal) : l ∈ stated ↔ l ∈ restated := by
  simp only [stated, restated, List.mem_cons, List.not_mem_nil, or_false]
  constructor
  · rintro (hP | hQ)
    · exact Or.inr (Or.inl hP)
    · exact Or.inl hQ
  · rintro (hQ | hP | hQ)
    · exact Or.inr hQ
    · exact Or.inl hP
    · exact Or.inr hQ

theorem ofList_canonical_restated :
    (∀ l, l ∈ stated ↔ l ∈ restated) ∧ ofList stated = ofList restated ∧
    (ofList stated).toList = (ofList restated).toList ∧
    (ofList stated).text = (ofList restated).text ∧ (ofList restated).text = "¬Q(x) ∨ P(A)" := by
  obtain ⟨hclause, hsequence, htext⟩ := (ofList_canonical stated restated).2.2.1 mem_stated_iff
  exact ⟨mem_stated_iff, hclause, hsequence, htext, by decide +kernel⟩

end Example

end Clause

end Clausal
