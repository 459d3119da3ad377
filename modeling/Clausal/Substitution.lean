import Clausal.Clause
import Clausal.Collection.SortedMap

/-!
# Substitutions

A substitution binds finitely many variables to terms. Applying it replaces all bound variables of
an expression at once, in a single pass, so the terms it puts in are not looked at again. Bindings
may refer to each other; `bind` adds one that keeps them resolved if they were.
-/

namespace Clausal

set_option autoImplicit false

/-- A finite map from variable names to terms. -/
structure Substitution where
  bindings : SortedMap String Term
deriving DecidableEq

namespace Substitution

/-- The substitution that changes nothing. -/
def empty : Substitution := ⟨.empty⟩

instance : EmptyCollection Substitution := ⟨empty⟩

instance : Inhabited Substitution := ⟨empty⟩

def single (v : String) (t : Term) : Substitution := ⟨.singleton v t⟩

def get? (s : Substitution) (v : String) : Option Term := s.bindings.get? v

def binds (s : Substitution) (v : String) : Bool := s.bindings.contains v

def size (s : Substitution) : Nat := s.bindings.size

def isEmpty (s : Substitution) : Bool := s.bindings.isEmpty

/-- The bindings in the order of the variables' names. -/
def toList (s : Substitution) : List (String × Term) := s.bindings.toList

/-- What a variable becomes; an unbound one stays. -/
def value (s : Substitution) (v : String) : Term := (s.get? v).getD (.var v)

end Substitution

namespace Term

mutual

/-- Replaces every bound variable by its binding, all at once. -/
def subst (s : Substitution) : Term → Term
  | const n => const n
  | var n => s.value n
  | app f ts => app f (substArgs s ts)

def substArgs (s : Substitution) : List Term → List Term
  | [] => []
  | t :: ts => subst s t :: substArgs s ts

end

theorem substArgs_eq_map (s : Substitution) (ts : List Term) :
    substArgs s ts = ts.map (subst s) := by
  induction ts with
  | nil => rfl
  | cons t ts ih => simp [substArgs, ih]

end Term

def Literal.subst (s : Substitution) (l : Literal) : Literal := ⟨l.positive, l.term.subst s⟩

/-- Literals that become equal become one. -/
def Clause.subst (s : Substitution) (c : Clause) : Clause := .ofList (c.toList.map (·.subst s))

@[simp] theorem Clause.mem_subst {s : Substitution} {c : Clause} {l : Literal} :
    l ∈ c.subst s ↔ ∃ m, m ∈ c ∧ m.subst s = l := by
  simp [Clause.subst, Clause.mem_toList]

namespace Substitution

/-- Binds a variable to a term as it is, in place of any binding it has. -/
def insert (s : Substitution) (v : String) (t : Term) : Substitution := ⟨s.bindings.insert v t⟩

def mapTerms (f : Term → Term) (s : Substitution) : Substitution := ⟨s.bindings.mapValues f⟩

/-- Binds a variable to the term that the bindings make of `t`, and puts that term for the
variable in all other bindings. -/
def bind (s : Substitution) (v : String) (t : Term) : Substitution :=
  (s.mapTerms (Term.subst (single v (t.subst s)))).insert v (t.subst s)

/-- The substitution that acts as `s` and then `r`. -/
def compose (s r : Substitution) : Substitution :=
  ⟨(s.mapTerms (Term.subst r)).bindings.union r.bindings⟩

def text (s : Substitution) : String :=
  "\x7b" ++ ", ".intercalate (s.toList.map (fun b => b.1 ++ " → " ++ b.2.text)) ++ "\x7d"

@[simp] theorem get?_empty (v : String) : empty.get? v = none := rfl

@[simp] theorem get?_single (v w : String) (t : Term) :
    (single v t).get? w = if w = v then some t else none :=
  SortedMap.get?_singleton

@[simp] theorem get?_insert (s : Substitution) (v w : String) (t : Term) :
    (s.insert v t).get? w = if w = v then some t else s.get? w :=
  SortedMap.get?_insert

@[simp] theorem get?_mapTerms (f : Term → Term) (s : Substitution) (v : String) :
    (s.mapTerms f).get? v = (s.get? v).map f :=
  SortedMap.get?_mapValues

@[simp] theorem get?_compose (s r : Substitution) (v : String) :
    (s.compose r).get? v = ((s.get? v).map (Term.subst r)).or (r.get? v) := by
  simp only [compose, get?, SortedMap.get?_union]
  exact congrArg (Option.or · _) (get?_mapTerms _ _ _)

theorem get?_bind (s : Substitution) (v w : String) (t : Term) :
    (s.bind v t).get? w =
      if w = v then some (t.subst s) else (s.get? w).map (Term.subst (single v (t.subst s))) := by
  simp [bind]

theorem eq_of_get?_eq {s r : Substitution} (h : ∀ v, s.get? v = r.get? v) : s = r := by
  cases s
  cases r
  exact congrArg Substitution.mk (SortedMap.eq_of_get?_eq h)

end Substitution

end Clausal
