import Mathlib.Data.Finset.Card
import Mathlib.Data.List.Perm.Subperm
import Clausal.Proofs.Searches

/-!
# What the counters of a search say

Between rounds the counters agree with what is held. Only the last round can break this, by taking
in the empty clause or more clauses than allowed, and the answer shows which of the two happened.
-/

namespace Clausal

set_option autoImplicit false

/-- The counters of an answer fit together, the limits, and the number of clauses at the start. -/
structure Answer.Accounts (a : Answer) (limits : Limits) (start : Nat) : Prop where
  cutoff : (∃ cutoff, a.tally.cutoff = some cutoff) ↔ a.verdict = .inconclusive
  -- the empty clause that a round concludes is taken in without being counted as new
  clauses : a.tally.clauses =
    start + a.tally.generated + if a.verdict = .proven ∧ 1 ≤ a.tally.rounds then 1 else 0
  generated : a.tally.generated ≤ a.tally.resolutions
  rounds : a.tally.rounds ≤ limits.rounds
  spent : a.tally.cutoff = some .rounds → a.tally.rounds = limits.rounds
  overfull : a.tally.cutoff = some .clauses →
    ∃ bound, limits.clauses = some bound ∧ bound < a.tally.clauses
  room : ∀ bound, limits.clauses = some bound → 0 < a.tally.generated →
    a.tally.cutoff ≠ some .clauses → start + a.tally.generated ≤ bound
  interrupted : limits.time = none ∨ limits.time = some .zero →
    a.tally.cutoff = some .cancelled ∨ a.tally.cutoff = some .time → a.tally.rounds = 0

namespace Saturation

theorem Sweep.Covers.length_fresh_le {held : ClauseSet} {done : List Inference} {w : Sweep}
    (h : w.Covers held done) : w.fresh.length ≤ w.resolutions := by
  -- the new clauses are different conclusions of the inferences that were counted
  have hsub : w.fresh.map Prod.fst ⊆ done.map Inference.conclusion := by
    intro c hc
    obtain ⟨f, hf, rfl⟩ := List.mem_map.mp hc
    obtain ⟨-, x, hx, rfl⟩ := h.found f hf
    exact List.mem_map_of_mem hx
  have hle := (List.subperm_of_subset h.distinct hsub).length_le
  rw [List.length_map, List.length_map] at hle
  rw [h.counted]
  exact hle

theorem size_takeEmpty {s : State} (hempty : ¬ .empty ∈ s.holding.clauses) (hit : Hit) :
    (s.takeEmpty hit).holding.size = s.holding.size + 1 := by
  unfold State.takeEmpty Holding.size
  rw [Holding.clauses_insert, Roster.size_insert]
  exact if_neg hempty

/-- A search starts with the distinct clauses among the given ones and the negated query. -/
theorem size_start (given : ClauseSet) (query : Literal) :
    (Holding.start given query).size =
      (insert (.unit query.complement) given.toList.toFinset).card := by
  have hmem : (Holding.start given query).clauses.toList.toFinset =
      insert (.unit query.complement) given.toList.toFinset := by
    ext c
    rw [List.mem_toFinset, Finset.mem_insert, List.mem_toFinset]
    exact Holding.mem_start
  rw [← hmem, List.toFinset_card_of_nodup (Holding.start given query).clauses.nodup]
  rfl

theorem size_le_of_overfull_eq_false {limits : Limits} {h : Holding} {bound : Nat}
    (hroom : overfull limits h = false) (hbound : limits.clauses = some bound) :
    h.size ≤ bound := by
  apply Nat.le_of_not_lt
  intro hlt
  rw [overfull_iff.mpr ⟨bound, hbound, hlt⟩] at hroom
  cases hroom

/-- The counters agree with what is held. -/
structure Counted (limits : Limits) (cancelled : Bool) (start : Nat) (s : State) : Prop where
  size : s.holding.size = start + s.tally.generated
  generated : s.tally.generated ≤ s.tally.resolutions
  rounds : s.tally.rounds ≤ limits.rounds
  uninterrupted : 0 < s.tally.rounds → ∃ elapsed, interruption limits cancelled elapsed = none

section Rounds

variable {limits : Limits} {cancelled : Bool} {clock : Clock} {start : Nat} {s t : State}

theorem counted_initial (given : ClauseSet) (query : Literal) :
    Counted limits cancelled (Holding.start given query).size (.initial given query) where
  size := rfl
  generated := Nat.le_refl 0
  rounds := Nat.zero_le _
  uninterrupted hpos := absurd hpos (Nat.lt_irrefl 0)

theorem Counted.endRound (h : Counted limits cancelled start s)
    (hstarts : Starts limits cancelled clock s) (w : Sweep) :
    Counted limits cancelled start (s.beginRound.endRound w) where
  size := h.size
  generated := Nat.le_trans h.generated (Nat.le_add_right _ _)
  rounds := hstarts.1
  uninterrupted _ := ⟨_, hstarts.2⟩

theorem Counted.next (h : Counted limits cancelled start s)
    (hstarts : Starts limits cancelled clock s) {w : Sweep}
    (hw : sweep s.holding.clauses = .ok w) : Counted limits cancelled start (s.next w) where
  size := by
    rw [State.holding_next, size_insertMany_of_sweep hw, h.size]
    exact Nat.add_assoc _ _ _
  generated := Nat.add_le_add h.generated (covers_of_sweep_eq_ok hw).length_fresh_le
  rounds := hstarts.1
  uninterrupted _ := ⟨_, hstarts.2⟩

theorem counted_of_advances (h : Relation.ReflTransGen (Advance limits cancelled clock) s t)
    (hs : Counted limits cancelled start s) : Counted limits cancelled start t := by
  induction h with
  | refl => exact hs
  | tail _ hstep ih =>
    cases hstep with
    | mk hstarts hw _ _ => exact ih.next hstarts hw

/-- Where new clauses have been taken in and the search goes on, there was room for them. -/
theorem Counted.room_of_advances {given : ClauseSet} {query : Literal}
    (h : Counted limits cancelled start t)
    (ht : Relation.ReflTransGen (Advance limits cancelled clock) (.initial given query) t)
    {bound : Nat} (hbound : limits.clauses = some bound) (hpos : 0 < t.tally.generated) :
    start + t.tally.generated ≤ bound := by
  rw [← h.size]
  rcases Relation.ReflTransGen.cases_tail ht with rfl | ⟨s, -, hstep⟩
  · exact absurd hpos (Nat.lt_irrefl 0)
  · cases hstep with
    | mk _ _ _ hroom => exact size_le_of_overfull_eq_false hroom hbound

theorem ne_of_interruption {elapsed : Duration} {cutoff : Cutoff}
    (hcut : interruption limits cancelled elapsed = some cutoff) :
    cutoff ≠ .rounds ∧ cutoff ≠ .clauses := by
  rcases cutoff_of_interruption hcut with ⟨-, rfl⟩ | rfl
  · exact ⟨nofun, nofun⟩
  · exact ⟨nofun, nofun⟩

/-- No round has been started when a search is interrupted, unless the clock has a say in it. -/
theorem Counted.rounds_eq_zero (h : Counted limits cancelled start s)
    (huntimed : limits.time = none ∨ limits.time = some .zero) {elapsed : Duration}
    {cutoff : Cutoff} (hcut : interruption limits cancelled elapsed = some cutoff) :
    s.tally.rounds = 0 := by
  apply Nat.eq_zero_of_not_pos
  intro hpos
  obtain ⟨elapsed', hnone⟩ := h.uninterrupted hpos
  rw [interruption_congr huntimed cancelled elapsed elapsed', hnone] at hcut
  cases hcut

end Rounds

section Ends

variable {limits : Limits} {cancelled : Bool} {clock : Clock} {start : Nat} {s : State}

theorem accounts_of_conclusive {verdict : Verdict} (hverdict : verdict ≠ .inconclusive)
    (hsize : s.holding.size =
      start + s.tally.generated + if verdict = .proven ∧ 1 ≤ s.tally.rounds then 1 else 0)
    (hgenerated : s.tally.generated ≤ s.tally.resolutions)
    (hrounds : s.tally.rounds ≤ limits.rounds)
    (hroom : ∀ bound, limits.clauses = some bound → 0 < s.tally.generated →
      start + s.tally.generated ≤ bound) :
    (s.finish verdict none).answer.Accounts limits start where
  cutoff := iff_of_false (fun ⟨_, hcutoff⟩ => nomatch hcutoff) hverdict
  clauses := hsize
  generated := hgenerated
  rounds := hrounds
  spent hcutoff := nomatch hcutoff
  overfull hcutoff := nomatch hcutoff
  room bound hbound hpos _ := hroom bound hbound hpos
  interrupted _ hcutoff := hcutoff.elim nofun nofun

theorem Counted.accounts_of_cutoff (h : Counted limits cancelled start s) {cutoff : Cutoff}
    (hspent : cutoff = .rounds → s.tally.rounds = limits.rounds)
    (hfull : cutoff = .clauses → Saturation.overfull limits s.holding = true)
    (hroom : cutoff ≠ .clauses → ∀ bound, limits.clauses = some bound → 0 < s.tally.generated →
      start + s.tally.generated ≤ bound)
    (hinterrupted : limits.time = none ∨ limits.time = some .zero →
      cutoff = .cancelled ∨ cutoff = .time → s.tally.rounds = 0) :
    (s.finish .inconclusive (some cutoff)).answer.Accounts limits start where
  cutoff := iff_of_true ⟨cutoff, rfl⟩ rfl
  clauses := h.size
  generated := h.generated
  rounds := h.rounds
  spent hcutoff := hspent (Option.some.inj hcutoff)
  overfull hcutoff := overfull_iff.mp (hfull (Option.some.inj hcutoff))
  room bound hbound hpos hcutoff :=
    hroom (fun heq => hcutoff (congrArg some heq)) bound hbound hpos
  interrupted huntimed hcutoff :=
    hinterrupted huntimed (hcutoff.imp Option.some.inj Option.some.inj)

theorem accounts_of_ends {given : ClauseSet} {query : Literal} {report : Report}
    (hs : Relation.ReflTransGen (Advance limits cancelled clock) (.initial given query) s)
    (hempty : ¬ .empty ∈ (Holding.start given query).clauses)
    (hends : Ends limits cancelled clock s report) :
    report.answer.Accounts limits (Holding.start given query).size := by
  have hcounted := counted_of_advances hs (counted_initial given query)
  have hroom (bound : Nat) (hbound : limits.clauses = some bound) :=
    hcounted.room_of_advances hs hbound
  cases hends with
  | spent hspent =>
    exact hcounted.accounts_of_cutoff (fun _ => hspent) nofun (fun _ => hroom)
      (fun _ hcutoff => hcutoff.elim nofun nofun)
  | interrupted _ hcut =>
    obtain ⟨hnotSpent, hnotFull⟩ := ne_of_interruption hcut
    exact hcounted.accounts_of_cutoff (fun h => absurd h hnotSpent) (fun h => absurd h hnotFull)
      (fun _ => hroom) (fun huntimed _ => hcounted.rounds_eq_zero huntimed hcut)
  | @refuted hit hstarts _ =>
    have hsize := size_takeEmpty (s := s.beginRound) (derivable_of_advances hs hempty).2 hit
    refine accounts_of_conclusive nofun ?_ ?_ hstarts.1 hroom
    · rw [hsize, if_pos ⟨rfl, Nat.succ_pos _⟩]
      exact congrArg (· + 1) hcounted.size
    · exact Nat.le_trans hcounted.generated (Nat.le_add_right _ _)
  | saturated hstarts _ _ =>
    have hround := hcounted.endRound hstarts
    exact accounts_of_conclusive nofun (hround _).size (hround _).generated hstarts.1 hroom
  | overfull hstarts hw _ hfull =>
    have hnext := hcounted.next hstarts hw
    exact hnext.accounts_of_cutoff nofun (fun _ => hfull) (fun hne => absurd rfl hne)
      (fun _ hcutoff => hcutoff.elim nofun nofun)

end Ends

theorem accounts_search (limits : Limits) (cancelled : Bool) (clock : Clock) (given : ClauseSet)
    (query : Literal) : (search limits cancelled clock given query).answer.Accounts limits
      (Holding.start given query).size := by
  rcases search_cases limits cancelled clock given query with ⟨-, heq⟩ | ⟨hempty, s, hs, hends⟩
  · rw [heq]
    exact accounts_of_conclusive nofun rfl (Nat.le_refl 0) (Nat.zero_le _)
      (fun _ _ hpos => absurd hpos (Nat.lt_irrefl 0))
  · exact accounts_of_ends hs hempty hends

end Saturation

open Saturation

/-- Whatever the answer, its counters and its cutoff are true of the search and its limits. -/
theorem entails_accounts (p : Prover) (clock : Clock) (given : ClauseSet) (query : Literal) :
    (p.entails clock given query).Accounts p.limits
      (insert (.unit query.complement) given.toList.toFinset).card := by
  rw [← size_start]
  exact accounts_search p.limits p.cancelled clock given query

section Example

def wetGround : ClauseSet := .ofList
  [.unit ⟨true, .const "Wet"⟩, .ofList [⟨false, .const "Wet"⟩, ⟨true, .const "Slippery"⟩]]

/-- The first round adds two clauses to the three at the start, as many as there is room for. The
second finds the empty clause, which is one more. -/
theorem entails_accounts_wetGround :
    (Prover.entails ⟨⟨100, some 5, none⟩, false⟩ (fun _ => .zero) wetGround
      ⟨true, .const "Slippery"⟩).tally = ⟨2, 4, 2, 6, none⟩ ∧
    (Prover.entails ⟨⟨100, some 5, none⟩, false⟩ (fun _ => .zero) wetGround
      ⟨true, .const "Slippery"⟩).Accounts ⟨100, some 5, none⟩ 3 := by
  have hstart : (insert (.unit (Literal.complement ⟨true, .const "Slippery"⟩))
      wetGround.toList.toFinset).card = 3 := by decide
  refine ⟨rfl, ?_⟩
  rw [← hstart]
  exact entails_accounts ⟨⟨100, some 5, none⟩, false⟩ _ _ _

end Example

end Clausal
