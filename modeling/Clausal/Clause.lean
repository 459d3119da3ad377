import Clausal.Literal
import Clausal.Collection.Roster

/-!
# Clauses

A clause is a finite set of literals, read as their disjunction; the empty clause is false. A
clause set keeps its clauses in the order in which they arrived.
-/

namespace Clausal

set_option autoImplicit false

/-- A disjunction of literals. -/
structure Clause where
  literals : SortedSet Literal
deriving DecidableEq

/-- Clauses without repetition, in order of arrival. -/
abbrev ClauseSet := Roster Clause

namespace Clause

instance : Membership Literal Clause where
  mem c l := l ∈ c.literals

instance (l : Literal) (c : Clause) : Decidable (l ∈ c) :=
  inferInstanceAs (Decidable (l ∈ c.literals))

theorem mem_literals {l : Literal} {c : Clause} : l ∈ c.literals ↔ l ∈ c := Iff.rfl

instance : Ord Clause where
  compare c d := compare c.literals d.literals

/-- The clause that is false. -/
def empty : Clause := ⟨.empty⟩

instance : Inhabited Clause := ⟨empty⟩

def unit (l : Literal) : Clause := ⟨.singleton l⟩

def ofList (ls : List Literal) : Clause := ⟨.ofList ls⟩

def toList (c : Clause) : List Literal := c.literals.toList

def size (c : Clause) : Nat := c.literals.size

def isEmpty (c : Clause) : Bool := c.literals.isEmpty

def isUnit (c : Clause) : Bool := c.size = 1

/-- At most one literal is positive. -/
def isHorn (c : Clause) : Bool := (c.toList.filter (·.positive)).length ≤ 1

def without (c : Clause) (l : Literal) : Clause := ⟨c.literals.erase l⟩

def vars (c : Clause) : SortedSet String :=
  .ofList (c.toList.flatMap (·.term.occurrences))

/-- The literals as text with a disjunction sign between them; `⊥` if there are none. -/
def text (c : Clause) : String :=
  if c.isEmpty then "⊥" else " ∨ ".intercalate (c.toList.map Literal.text)

theorem eq_of_mem_iff {c d : Clause} (h : ∀ l, l ∈ c ↔ l ∈ d) : c = d := by
  cases c
  cases d
  exact congrArg Clause.mk (SortedSet.eq_of_mem_iff h)

theorem mem_toList {l : Literal} {c : Clause} : l ∈ c.toList ↔ l ∈ c := Iff.rfl

@[simp] theorem not_mem_empty (l : Literal) : ¬ l ∈ empty := SortedSet.not_mem_empty l

@[simp] theorem mem_unit {l m : Literal} : l ∈ unit m ↔ l = m := SortedSet.mem_singleton

@[simp] theorem mem_ofList {l : Literal} {ls : List Literal} : l ∈ ofList ls ↔ l ∈ ls :=
  SortedSet.mem_ofList

@[simp] theorem mem_without {l m : Literal} {c : Clause} : l ∈ c.without m ↔ l ∈ c ∧ l ≠ m :=
  SortedSet.mem_erase

@[simp] theorem isEmpty_iff {c : Clause} : c.isEmpty = true ↔ c = empty := by
  cases c
  simp [isEmpty, empty]

end Clause

end Clausal
