/-!
# Limits of a search

How many rounds, how many clauses and how much time a search may take.
-/

namespace Clausal

set_option autoImplicit false

/-- A span of time in seconds and nanoseconds. -/
structure Duration where
  seconds : Nat
  nanos : Nat
  nanos_lt : nanos < 1000000000
deriving DecidableEq

namespace Duration

def zero : Duration := ⟨0, 0, by decide⟩

instance : Inhabited Duration := ⟨zero⟩

/-- The span of some seconds and any number of nanoseconds; full seconds are carried. -/
def ofParts (seconds nanos : Nat) : Duration :=
  ⟨seconds + nanos / 1000000000, nanos % 1000000000, Nat.mod_lt _ (by decide)⟩

def toNanos (d : Duration) : Nat := d.seconds * 1000000000 + d.nanos

@[simp] theorem toNanos_ofParts (seconds nanos : Nat) :
    (ofParts seconds nanos).toNanos = seconds * 1000000000 + nanos := by
  unfold toNanos ofParts
  dsimp only
  omega

def reaches (elapsed bound : Duration) : Bool := bound.toNanos ≤ elapsed.toNanos

end Duration

/-- The limits of a search; those left out do not apply. -/
structure Limits where
  /-- Rounds that may be started. -/
  rounds : Nat := 100
  /-- Clauses that may be held at the end of a round. -/
  clauses : Option Nat := none
  /-- Time after which no round is started. -/
  time : Option Duration := none
deriving DecidableEq

namespace Limits

instance : Inhabited Limits := ⟨{}⟩

def withRounds (l : Limits) (rounds : Nat) : Limits := { l with rounds := rounds }

def withClauses (l : Limits) (clauses : Nat) : Limits := { l with clauses := some clauses }

def withTime (l : Limits) (time : Duration) : Limits := { l with time := some time }

end Limits

end Clausal
