import Clausal.Limits
import Clausal.Saturation.Round

/-!
# The search for a refutation

A search holds the given clauses and the negated query and makes rounds of saturation until the
empty clause is found, a round finds nothing new, or a limit ends it. Cancellation and time are
looked at before each round, the number of clauses after it.
-/

namespace Clausal.Saturation

set_option autoImplicit false

/-- The time passed when the round after the given number of rounds would start. -/
abbrev Clock := Nat → Duration

/-- The clauses held, each with its origin. -/
structure Holding where
  clauses : ClauseSet
  origins : List Origin
  aligned : origins.length = clauses.size
deriving DecidableEq

namespace Holding

def ofGiven (given : ClauseSet) : Holding :=
  ⟨given, given.toList.map (fun _ => .given), List.length_map _⟩

/-- Takes in a clause with its origin; one that is held already keeps the origin it has. -/
def insert (h : Holding) (c : Clause) (o : Origin) : Holding :=
  if hc : c ∈ h.clauses then h
  else ⟨h.clauses.insert c, h.origins ++ [o], by
    rw [Roster.size_insert, if_neg hc, List.length_append, h.aligned]
    rfl⟩

def insertMany (h : Holding) (fresh : List (Clause × Origin)) : Holding :=
  fresh.foldl (fun h f => h.insert f.1 f.2) h

/-- The given clauses and the negated query. -/
def start (given : ClauseSet) (query : Literal) : Holding :=
  (ofGiven given).insert (.unit query.complement) .negatedQuery

def size (h : Holding) : Nat := h.clauses.size

/-- The refutation of the empty clause, if it is held. -/
def refutation (h : Holding) : Option Refutation :=
  match h.clauses.toList.idxOf? .empty with
  | none => none
  | some root => Refutation.extract h.clauses.toList h.origins root

end Holding

/-- An answer and what happened on the way to it. -/
structure Report where
  answer : Answer
  journal : Array Event
deriving DecidableEq

/-- A search between two rounds. -/
structure State where
  holding : Holding
  tally : Tally
  journal : Array Event

namespace State

def finish (s : State) (verdict : Verdict) (cutoff : Option Cutoff) : Report :=
  let tally := { s.tally with clauses := s.holding.size, cutoff := cutoff }
  { answer := ⟨verdict, tally, if verdict = .proven then s.holding.refutation else none⟩
    journal := s.journal.push (.finished verdict tally) }

def beginRound (s : State) : State := { s with tally.rounds := s.tally.rounds + 1 }

/-- Adds what a round counted and noted. -/
def add (s : State) (w : Sweep) : State :=
  { s with
    tally.resolutions := s.tally.resolutions + w.resolutions
    journal := s.journal ++ w.journal }

def takeEmpty (s : State) (h : Hit) : State :=
  let s := s.add h.sweep
  { s with holding := s.holding.insert .empty (.resolved h.left h.right) }

def endRound (s : State) (w : Sweep) : State :=
  let s := s.add w
  { s with journal := s.journal.push (.roundEnded s.tally.rounds s.holding.size w.fresh.length) }

def merge (s : State) (w : Sweep) : State :=
  { s with
    holding := s.holding.insertMany w.fresh
    tally.generated := s.tally.generated + w.fresh.length }

end State

/-- What keeps the next round from starting. -/
def interruption (limits : Limits) (cancelled : Bool) (elapsed : Duration) : Option Cutoff :=
  if cancelled then some .cancelled
  else
    match limits.time with
    | none => none
    | some bound => if elapsed.reaches bound then some .time else none

def overfull (limits : Limits) (h : Holding) : Bool :=
  match limits.clauses with
  | none => false
  | some bound => bound < h.size

/-- Makes at most the given number of rounds. -/
def run (limits : Limits) (cancelled : Bool) (clock : Clock) : Nat → State → Report
  | 0, s => s.finish .inconclusive (some .rounds)
  | left + 1, s =>
    match interruption limits cancelled (clock s.tally.rounds) with
    | some cutoff => s.finish .inconclusive (some cutoff)
    | none =>
      match sweep s.holding.clauses with
      | .error hit => (s.beginRound.takeEmpty hit).finish .proven none
      | .ok w =>
        let s := s.beginRound.endRound w
        if w.fresh.isEmpty then s.finish .disproven none
        else
          let s := s.merge w
          if overfull limits s.holding then s.finish .inconclusive (some .clauses)
          else run limits cancelled clock left s

/-- Searches for a refutation of the given clauses and the negated query. -/
def search (limits : Limits) (cancelled : Bool) (clock : Clock) (given : ClauseSet)
    (query : Literal) : Report :=
  let holding := Holding.start given query
  if Clause.empty ∈ holding.clauses then
    State.finish ⟨holding, {}, #[.contradictory query]⟩ .proven none
  else run limits cancelled clock limits.rounds ⟨holding, {}, #[]⟩

end Clausal.Saturation
