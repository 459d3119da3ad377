import Clausal.Term.Basic

/-!
# The order of terms

Constants come before variables and variables before applications. Names go by code point;
applications go by symbol, name before declared arity, and then by their arguments from left to
right. The order is total, and only equal terms compare equal.
-/

namespace Clausal

set_option autoImplicit false

namespace Symbol

instance : Ord Symbol where
  compare f g := (compare f.name g.name).then (compare f.arity g.arity)

theorem compare_def (f g : Symbol) :
    compare f g = (compare f.name g.name).then (compare f.arity g.arity) := rfl

end Symbol

/-- Comparing first components and then second components is transitive if both comparisons are. -/
theorem Ordering.isLE_then_trans {a b c a' b' c' : Ordering}
    (first : a.isLE → b.isLE → c.isLE) (tie : a.isLE → b.isLE → c = .eq → a = .eq ∧ b = .eq)
    (second : a'.isLE → b'.isLE → c'.isLE) :
    (a.then a').isLE → (b.then b').isLE → (c.then c').isLE := by
  cases a <;> cases b <;> cases c <;> simp_all

/-- In a transitive order, ends that compare equal leave no room between them. -/
theorem Ordering.eq_of_isLE_of_eq {α : Type} {cmp : α → α → Ordering} [Std.TransCmp cmp]
    {x y z : α} (hxy : (cmp x y).isLE) (hyz : (cmp y z).isLE) (hxz : cmp x z = .eq) :
    cmp x y = .eq ∧ cmp y z = .eq := by
  have hzx : (cmp z x).isLE := by simp [Std.OrientedCmp.eq_symm hxz]
  exact ⟨Std.OrientedCmp.isLE_antisymm hxy (Std.TransCmp.isLE_trans hyz hzx),
    Std.OrientedCmp.isLE_antisymm hyz (Std.TransCmp.isLE_trans hzx hxy)⟩

namespace Symbol

instance : Std.LawfulEqOrd Symbol where
  compare_self := by
    intro f
    simp [compare_def]
  eq_of_compare := by
    intro f g h
    cases f
    cases g
    simpa [compare_def] using h

instance : Std.TransOrd Symbol where
  eq_swap := by
    intro f g
    rw [compare_def, compare_def, Ordering.swap_then, ← Std.OrientedOrd.eq_swap,
      ← Std.OrientedOrd.eq_swap]
  isLE_trans := by
    intro f g h
    exact Ordering.isLE_then_trans Std.TransCmp.isLE_trans Ordering.eq_of_isLE_of_eq
      Std.TransCmp.isLE_trans

end Symbol

namespace Term

mutual

def order : Term → Term → Ordering
  | const m, const n => compare m n
  | const _, var _ => .lt
  | const _, app _ _ => .lt
  | var _, const _ => .gt
  | var m, var n => compare m n
  | var _, app _ _ => .lt
  | app _ _, const _ => .gt
  | app _ _, var _ => .gt
  | app f ts, app g us => (compare f g).then (orderArgs ts us)

/-- The lexicographic order of argument lists. -/
def orderArgs : List Term → List Term → Ordering
  | [], [] => .eq
  | [], _ :: _ => .lt
  | _ :: _, [] => .gt
  | t :: ts, u :: us => (order t u).then (orderArgs ts us)

end

instance : Ord Term := ⟨order⟩

theorem compare_def (t u : Term) : compare t u = order t u := rfl

mutual

theorem order_self (t : Term) : order t t = .eq := by
  cases t with
  | const n => simp [order]
  | var n => simp [order]
  | app f ts => simp [order, orderArgs_self ts]

theorem orderArgs_self (ts : List Term) : orderArgs ts ts = .eq := by
  cases ts with
  | nil => rfl
  | cons t ts => simp [orderArgs, order_self t, orderArgs_self ts]

end

mutual

theorem eq_of_order_eq {t u : Term} (h : order t u = .eq) : t = u := by
  cases t with
  | const m => cases u <;> simp_all [order]
  | var m => cases u <;> simp_all [order]
  | app f ts =>
    cases u with
    | const n => simp [order] at h
    | var n => simp [order] at h
    | app g us =>
      simp only [order, Ordering.then_eq_eq, Std.LawfulEqCmp.compare_eq_iff_eq] at h
      rw [h.1, eq_of_orderArgs_eq h.2]

theorem eq_of_orderArgs_eq {ts us : List Term} (h : orderArgs ts us = .eq) : ts = us := by
  cases ts with
  | nil => cases us <;> simp_all [orderArgs]
  | cons t ts =>
    cases us with
    | nil => simp [orderArgs] at h
    | cons u us =>
      simp only [orderArgs, Ordering.then_eq_eq] at h
      rw [eq_of_order_eq h.1, eq_of_orderArgs_eq h.2]

end

instance : Std.LawfulEqOrd Term where
  compare_self := order_self _
  eq_of_compare := eq_of_order_eq

/-- Terms are equal when they compare equal. -/
instance : DecidableEq Term := fun t u =>
  decidable_of_iff (compare t u = .eq) Std.LawfulEqCmp.compare_eq_iff_eq

mutual

theorem order_swap (t u : Term) : order t u = (order u t).swap := by
  cases t with
  | const m => cases u <;> simp [order, Std.OrientedOrd.eq_swap (a := m)]
  | var m => cases u <;> simp [order, Std.OrientedOrd.eq_swap (a := m)]
  | app f ts =>
    cases u with
    | const n => rfl
    | var n => rfl
    | app g us =>
      rw [order, order, Ordering.swap_then, ← Std.OrientedOrd.eq_swap, ← orderArgs_swap ts us]

theorem orderArgs_swap (ts us : List Term) : orderArgs ts us = (orderArgs us ts).swap := by
  cases ts with
  | nil => cases us <;> rfl
  | cons t ts =>
    cases us with
    | nil => rfl
    | cons u us =>
      rw [orderArgs, orderArgs, Ordering.swap_then, ← order_swap t u, ← orderArgs_swap ts us]

end

mutual

theorem order_trans {t u v : Term} (htu : (order t u).isLE) (huv : (order u v).isLE) :
    (order t v).isLE := by
  cases t with
  | const m =>
    cases u with
    | const n =>
      cases v <;> simp_all [order]
      exact Std.TransCmp.isLE_trans htu huv
    | var n => cases v <;> simp_all [order]
    | app g us => cases v <;> simp_all [order]
  | var m =>
    cases u with
    | const n => simp [order] at htu
    | var n =>
      cases v <;> simp_all [order]
      exact Std.TransCmp.isLE_trans htu huv
    | app g us => cases v <;> simp_all [order]
  | app f ts =>
    cases u with
    | const n => simp [order] at htu
    | var n => simp [order] at htu
    | app g us =>
      cases v with
      | const n => simp [order] at huv
      | var n => simp [order] at huv
      | app h vs =>
        exact Ordering.isLE_then_trans Std.TransCmp.isLE_trans Ordering.eq_of_isLE_of_eq
          orderArgs_trans htu huv

theorem orderArgs_trans {ts us vs : List Term} (htu : (orderArgs ts us).isLE)
    (huv : (orderArgs us vs).isLE) : (orderArgs ts vs).isLE := by
  cases ts with
  | nil => cases vs <;> simp [orderArgs]
  | cons t ts =>
    cases us with
    | nil => simp [orderArgs] at htu
    | cons u us =>
      cases vs with
      | nil => simp [orderArgs] at huv
      | cons v vs =>
        refine Ordering.isLE_then_trans order_trans ?_ orderArgs_trans htu huv
        intro h₁ h₂ h₃
        have e := eq_of_order_eq h₃
        subst e
        have h₁₂ : order t u = .eq := by
          rw [order_swap] at h₂
          revert h₁ h₂
          cases order t u <;> simp
        exact ⟨h₁₂, by rw [order_swap, h₁₂]; rfl⟩

end

instance : Std.TransOrd Term where
  eq_swap := order_swap _ _
  isLE_trans := order_trans

end Term

end Clausal
