/-!
# JSON values

JSON values as data, with the readers that records and tagged values are built from. Numbers are
decimal fractions; only whole ones below a bound are ever read.
-/

namespace Clausal

set_option autoImplicit false

inductive Json where
  | null
  | bool (b : Bool)
  /-- The number `mantissa / 10 ^ places`. -/
  | number (mantissa : Int) (places : Nat)
  | str (s : String)
  | arr (items : List Json)
  | obj (fields : List (String × Json))

namespace Json

instance : Inhabited Json := ⟨null⟩

def ofNat (n : Nat) : Json := number n 0

/-- Nothing is written as `null`. -/
def ofOption {α : Type} (write : α → Json) : Option α → Json
  | none => null
  | some a => write a

def ofList {α : Type} (write : α → Json) (as : List α) : Json := arr (as.map write)

def strings (texts : List String) : Json := ofList str texts

def field? (name : String) : Json → Option Json
  | obj fields => fields.lookup name
  | _ => none

def isObject : Json → Bool
  | obj _ => true
  | _ => false

/-- Counts and indices are 64 bits wide. -/
def countBound : Nat := 0x10000000000000000

def natBelow? (bound : Nat) : Json → Option Nat
  | number (.ofNat n) 0 => if n < bound then some n else none
  | _ => none

def count? (j : Json) : Option Nat := j.natBelow? countBound

def bool? : Json → Option Bool
  | bool b => some b
  | _ => none

def str? : Json → Option String
  | str s => some s
  | _ => none

def list? {α : Type} (read : Json → Option α) : Json → Option (List α)
  | arr items => items.mapM read
  | _ => none

def nullable? {α : Type} (read : Json → Option α) : Json → Option (Option α)
  | null => some none
  | j => (read j).map some

def required? {α : Type} (name : String) (read : Json → Option α) (j : Json) : Option α :=
  (j.field? name).bind read

def defaulted? {α : Type} (name : String) (fallback : α) (read : Json → Option α) (j : Json) :
    Option α :=
  match j.field? name with
  | none => some fallback
  | some v => read v

/-- A field that may be missing or `null`. -/
def optional? {α : Type} (name : String) (read : Json → Option α) (j : Json) : Option (Option α) :=
  j.defaulted? name none (nullable? read)

/-- The tag of a value without content: its name alone, or its name with `null`. -/
def tag? : Json → Option String
  | str s => some s
  | obj [(s, null)] => some s
  | _ => none

def ofName (name : String) : Json := obj [("name", str name)]

def name? (j : Json) : Option String := j.required? "name" str?

end Json

end Clausal
