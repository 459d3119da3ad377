import Clausal.Collection.SortedSet

/-!
# Terms

First-order terms over named constants, variables and function symbols. A symbol declares an arity
of its own; it takes part in equality and order, but the number of arguments is what counts
everywhere else.
-/

namespace Clausal

set_option autoImplicit false

/-- A function symbol: its name and the arity it declares. -/
structure Symbol where
  name : String
  arity : Nat
deriving DecidableEq

inductive Term where
  | const (name : String)
  | var (name : String)
  | app (head : Symbol) (args : List Term)

namespace Term

instance : Inhabited Term := ⟨const ""⟩

/-- Reserved one-letter names and names that start with a question mark denote variables. -/
def isVariableName (name : String) : Bool :=
  name == "x" || name == "y" || name == "z" || name == "m" || name.toList.head? == some '?'

/-- The variable or constant that a bare name denotes. -/
def ofName (name : String) : Term :=
  if isVariableName name then var name else const name

/-- A function applied to arguments, declaring the arity that they have. -/
def compound (name : String) (args : List Term) : Term := app ⟨name, args.length⟩ args

/-- The name of the constant, of the variable or of the head symbol. -/
def name : Term → String
  | const n => n
  | var n => n
  | app f _ => f.name

/-- The arguments; constants and variables have none. -/
def args : Term → List Term
  | const _ => []
  | var _ => []
  | app _ ts => ts

def isVariable : Term → Bool
  | var _ => true
  | _ => false

mutual

/-- The names of the variables from left to right, repetitions included. -/
def occurrences : Term → List String
  | const _ => []
  | var n => [n]
  | app _ ts => occurrencesIn ts

def occurrencesIn : List Term → List String
  | [] => []
  | t :: ts => occurrences t ++ occurrencesIn ts

end

def vars (t : Term) : SortedSet String := SortedSet.ofList t.occurrences

mutual

def mentions (v : String) : Term → Bool
  | const _ => false
  | var n => n = v
  | app _ ts => mentionsIn v ts

def mentionsIn (v : String) : List Term → Bool
  | [] => false
  | t :: ts => mentions v t || mentionsIn v ts

end

mutual

def isGround : Term → Bool
  | const _ => true
  | var _ => false
  | app _ ts => areGround ts

def areGround : List Term → Bool
  | [] => true
  | t :: ts => isGround t && areGround ts

end

mutual

/-- The number of constants, variables and applications in a term. -/
def size : Term → Nat
  | const _ => 1
  | var _ => 1
  | app _ ts => sizes ts + 1

def sizes : List Term → Nat
  | [] => 0
  | t :: ts => size t + sizes ts

end

mutual

/-- The characters of a term: arguments stand in parentheses, a comma and a space between them. -/
def chars : Term → List Char
  | const n => n.toList
  | var n => n.toList
  | app f ts => f.name.toList ++ '(' :: charsOfArgs ts

/-- The characters of arguments and of the parenthesis that closes them. -/
def charsOfArgs : List Term → List Char
  | [] => [')']
  | t :: ts => chars t ++ charsOfMoreArgs ts

/-- The characters of further arguments, each after a comma, and of the closing parenthesis. -/
def charsOfMoreArgs : List Term → List Char
  | [] => [')']
  | t :: ts => ',' :: ' ' :: (chars t ++ charsOfMoreArgs ts)

end

def text (t : Term) : String := String.ofList t.chars

mutual

theorem mem_occurrences_iff {v : String} (t : Term) : v ∈ t.occurrences ↔ t.mentions v = true := by
  cases t with
  | const n => simp [occurrences, mentions]
  | var n => simp [occurrences, mentions, eq_comm]
  | app f ts => simpa only [occurrences, mentions] using mem_occurrencesIn_iff ts

theorem mem_occurrencesIn_iff {v : String} (ts : List Term) :
    v ∈ occurrencesIn ts ↔ mentionsIn v ts = true := by
  cases ts with
  | nil => simp [occurrencesIn, mentionsIn]
  | cons t ts =>
    simp [occurrencesIn, mentionsIn, mem_occurrences_iff t, mem_occurrencesIn_iff ts]

end

@[simp] theorem mem_vars {v : String} {t : Term} : v ∈ t.vars ↔ t.mentions v = true := by
  simp [vars, mem_occurrences_iff]

mutual

theorem isGround_iff (t : Term) : t.isGround = true ↔ t.occurrences = [] := by
  cases t with
  | const n => simp [isGround, occurrences]
  | var n => simp [isGround, occurrences]
  | app f ts => simpa only [isGround, occurrences] using areGround_iff ts

theorem areGround_iff (ts : List Term) : areGround ts = true ↔ occurrencesIn ts = [] := by
  cases ts with
  | nil => simp [areGround, occurrencesIn]
  | cons t ts => simp [areGround, occurrencesIn, isGround_iff t, areGround_iff ts]

end

theorem size_pos (t : Term) : 0 < t.size := by
  cases t <;> simp [size]

end Term

end Clausal
