import Clausal.Term.Order

/-!
# Literals

A literal is a term with a sign. Negative literals come before positive ones, and literals of one
sign go by their terms.
-/

namespace Clausal

set_option autoImplicit false

/-- A term that is asserted or denied. -/
structure Literal where
  positive : Bool
  term : Term
deriving DecidableEq, Inhabited

namespace Literal

def negationSign : Char := '¬'

/-- The same term with the other sign. -/
def complement (l : Literal) : Literal := ⟨!l.positive, l.term⟩

/-- One literal is positive and the other negative; the terms do not matter. -/
def isOpposite (l m : Literal) : Bool := l.positive != m.positive

def isGround (l : Literal) : Bool := l.term.isGround

def vars (l : Literal) : SortedSet String := l.term.vars

/-- The characters of a literal: a denied term has the sign in front. -/
def chars (l : Literal) : List Char :=
  if l.positive then l.term.chars else negationSign :: l.term.chars

def text (l : Literal) : String := String.ofList l.chars

instance : Ord Literal where
  compare l m := (compare l.positive m.positive).then (compare l.term m.term)

theorem compare_def (l m : Literal) :
    compare l m = (compare l.positive m.positive).then (compare l.term m.term) := rfl

instance : Std.LawfulEqOrd Literal where
  compare_self := by
    intro l
    simp [compare_def]
  eq_of_compare := by
    intro l m h
    cases l
    cases m
    simpa [compare_def] using h

instance : Std.TransOrd Literal where
  eq_swap := by
    intro l m
    rw [compare_def, compare_def, Ordering.swap_then, ← Std.OrientedOrd.eq_swap,
      ← Std.OrientedOrd.eq_swap]
  isLE_trans := by
    intro l m n
    exact Ordering.isLE_then_trans Std.TransCmp.isLE_trans Ordering.eq_of_isLE_of_eq
      Std.TransCmp.isLE_trans

@[simp] theorem complement_complement (l : Literal) : l.complement.complement = l := by
  cases l
  simp [complement]

@[simp] theorem isOpposite_complement (l : Literal) : l.isOpposite l.complement = true := by
  cases l with
  | mk positive term => cases positive <;> rfl

end Literal

end Clausal
