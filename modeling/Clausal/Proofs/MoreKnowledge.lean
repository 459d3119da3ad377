import Clausal.Proofs.GroundResolution

/-!
# More ground knowledge proves no less

Two searches for the same ground query are run side by side, one over some ground clauses and one
over these and others. Round by round the second holds whatever the first holds, unless it has
found the empty clause by then. A limit on clauses is excluded: the larger search could run into
it.
-/

namespace Clausal

set_option autoImplicit false

namespace Saturation

section Lead

variable (limits : Limits) (clock : Clock) (given : ClauseSet) (query : Literal)

/-- The search ends with a proof after at most `n` rounds. -/
structure ProvenWithin (n : Nat) : Prop where
  verdict : (search limits false clock given query).answer.verdict = .proven
  rounds : (search limits false clock given query).answer.tally.rounds ≤ n

/-- After no more rounds than the state counts, the search holds all clauses of the state or has
ended with a proof. -/
inductive KeepsUp (s : State) : Prop where
  | holding {t : State} : ¬ .empty ∈ (Holding.start given query).clauses →
    Relation.ReflTransGen (Advance limits false clock) (.initial given query) t →
    t.tally.rounds ≤ s.tally.rounds → (∀ c ∈ s.holding.clauses, c ∈ t.holding.clauses) →
    KeepsUp s
  | proven : ProvenWithin limits clock given query s.tally.rounds → KeepsUp s

variable {limits clock given query}

theorem ProvenWithin.mono {m n : Nat} (h : ProvenWithin limits clock given query m)
    (hle : m ≤ n) : ProvenWithin limits clock given query n :=
  ⟨h.verdict, Nat.le_trans h.rounds hle⟩

theorem provenWithin_of_empty_mem (hempty : .empty ∈ (Holding.start given query).clauses)
    (n : Nat) : ProvenWithin limits clock given query n := by
  constructor <;> rw [search_of_empty_mem hempty]
  · rfl
  · exact Nat.zero_le n

theorem provenWithin_of_concludes {t : State}
    (hempty : ¬ .empty ∈ (Holding.start given query).clauses)
    (ht : Relation.ReflTransGen (Advance limits false clock) (.initial given query) t)
    (hstarts : Starts limits false clock t) (hconcludes : Concludes t.holding.clauses .empty) :
    ProvenWithin limits clock given query (t.tally.rounds + 1) := by
  obtain ⟨hit, hhit⟩ := exists_sweep_eq_error_iff.mpr hconcludes
  have hsearch := search_of_advances hempty ht (.refuted hstarts hhit)
  constructor <;> rw [hsearch]
  · rfl
  · exact Nat.le_refl _

section Rounds

variable {clock' : Clock} {s s' : State} (huntimed : limits.time = none)
include huntimed

theorem Starts.of_rounds_le {t : State} (hs : Starts limits false clock' s)
    (hle : t.tally.rounds ≤ s.tally.rounds) : Starts limits false clock t :=
  ⟨Nat.lt_of_le_of_lt hle hs.1, interruption_eq_none huntimed _⟩

variable (hgiven : ∀ c ∈ given, c.Ground) (hquery : query.isGround = true)
include hgiven hquery

/-- When the smaller search finds the empty clause, the larger one does so in its next round at
the latest. -/
theorem KeepsUp.provenWithin (h : KeepsUp limits clock given query s)
    (hstarts : Starts limits false clock' s) (hconcludes : Concludes s.holding.clauses .empty) :
    ProvenWithin limits clock given query (s.tally.rounds + 1) := by
  cases h with
  | proven hproven => exact hproven.mono (Nat.le_succ _)
  | holding hempty ht hle hsub =>
    have hground := ground_of_advances ht hempty hgiven hquery
    have hproven := provenWithin_of_concludes hempty ht (hstarts.of_rounds_le huntimed hle)
      (hconcludes.mono hground hsub)
    exact hproven.mono (Nat.succ_le_succ hle)

theorem KeepsUp.advance (hclauses : limits.clauses = none)
    (h : KeepsUp limits clock given query s) (hstep : Advance limits false clock' s s') :
    KeepsUp limits clock given query s' := by
  have hnext := hstep.rounds
  cases h with
  | proven hproven =>
    apply KeepsUp.proven
    apply hproven.mono
    omega
  | @holding t hempty ht hle hsub =>
    -- the round is matched by one from `t`, unless this one finds the empty clause
    have hground := ground_of_advances ht hempty hgiven hquery
    have hstarts : Starts limits false clock t := hstep.starts.of_rounds_le huntimed hle
    cases hw' : sweep t.holding.clauses with
    | error hit =>
      have hproven := provenWithin_of_concludes hempty ht hstarts
        (exists_sweep_eq_error_iff.mp ⟨hit, hw'⟩)
      apply KeepsUp.proven
      apply hproven.mono
      omega
    | ok w' =>
      have hsub' : ∀ c ∈ s'.holding.clauses, c ∈ (t.next w').holding.clauses := by
        intro c hc
        cases hstep with
        | mk _ hw _ _ =>
          apply (mem_insertMany_of_sweep hw').mpr
          rcases (mem_insertMany_of_sweep hw).mp hc with hc | hc
          · exact Or.inl (hsub c hc)
          · exact Or.inr (hc.mono hground hsub)
      by_cases hfresh : w'.fresh = []
      · -- nothing new was found, so the larger set holds the conclusions already
        rw [State.holding_next, hfresh] at hsub'
        exact .holding hempty ht (by omega) hsub'
      · have hroom : overfull limits (t.next w').holding = false := by
          simp [overfull, hclauses]
        refine .holding hempty (ht.tail (.mk hstarts hw' hfresh hroom)) ?_ hsub'
        rw [State.rounds_next]
        omega

theorem keepsUp_of_advances {fewer : ClauseSet} (hsub : ∀ c ∈ fewer, c ∈ given)
    (hclauses : limits.clauses = none)
    (h : Relation.ReflTransGen (Advance limits false clock') (.initial fewer query) s) :
    KeepsUp limits clock given query s := by
  induction h with
  | refl =>
    by_cases hempty : .empty ∈ (Holding.start given query).clauses
    · exact .proven (provenWithin_of_empty_mem hempty _)
    · refine .holding hempty .refl (Nat.le_refl _) ?_
      intro c hc
      exact Holding.mem_start.mpr ((Holding.mem_start.mp hc).imp id (hsub c))
  | tail _ hstep ih => exact ih.advance huntimed hgiven hquery hclauses hstep

/-- A search that proves the query over fewer ground clauses does so over more, and no later. -/
theorem provenWithin_of_fewer {fewer : ClauseSet} (hsub : ∀ c ∈ fewer, c ∈ given)
    (hclauses : limits.clauses = none)
    (hproven : (search limits false clock' fewer query).answer.verdict = .proven) :
    ProvenWithin limits clock given query
      (search limits false clock' fewer query).answer.tally.rounds := by
  rcases search_cases limits false clock' fewer query with ⟨hempty, _⟩ | ⟨_, s, hs, hends⟩
  · apply provenWithin_of_empty_mem
    exact Holding.mem_start.mpr ((Holding.mem_start.mp hempty).imp id (hsub .empty))
  · have hkeeps : KeepsUp limits clock given query s :=
      keepsUp_of_advances huntimed hgiven hquery hsub hclauses hs
    generalize search limits false clock' fewer query = report at hends hproven
    cases hends with
    | spent _ => cases hproven
    | interrupted _ _ => cases hproven
    | saturated _ _ _ => cases hproven
    | overfull _ _ _ _ => cases hproven
    | @refuted hit hstarts hhit =>
      have hconcludes := exists_sweep_eq_error_iff.mp ⟨hit, hhit⟩
      exact hkeeps.provenWithin huntimed hgiven hquery hstarts hconcludes

end Rounds

end Lead

end Saturation

open Saturation

/-- What a prover proves from some ground clauses, it proves from these and others, and in no more
rounds. -/
theorem entails_ground_mono (p : Prover) (clock clock' : Clock) (fewer more : ClauseSet)
    (query : Literal) (ground : ∀ c ∈ more, ∀ l ∈ c, l.isGround = true)
    (groundQuery : query.isGround = true) (included : ∀ c ∈ fewer, c ∈ more)
    (unlimited : p.limits.clauses = none) (untimed : p.limits.time = none)
    (running : p.cancelled = false)
    (proven : (p.entails clock fewer query).verdict = .proven) :
    (p.entails clock' more query).verdict = .proven ∧
      (p.entails clock' more query).tally.rounds ≤ (p.entails clock fewer query).tally.rounds := by
  unfold Prover.entails Prover.ask at *
  rw [running] at *
  obtain ⟨verdict, rounds⟩ : ProvenWithin p.limits clock' more query _ :=
    provenWithin_of_fewer untimed ground groundQuery included unlimited proven
  exact ⟨verdict, rounds⟩

section Example

def implies (a b : String) : Clause := .ofList [⟨false, .const a⟩, ⟨true, .const b⟩]

/-- Rain makes wet, what is wet is slippery, and what is slippery makes fall; it rains. -/
def rainyDay : ClauseSet := .ofList
  [.unit ⟨true, .const "Rain"⟩, implies "Rain" "Wet", implies "Wet" "Slippery",
    implies "Slippery" "Fall"]

/-- It is also known that it is wet, and that it does not snow. -/
def rainyDaySeen : ClauseSet := .ofList
  [implies "Slippery" "Fall", .unit ⟨false, .const "Snow"⟩, .unit ⟨true, .const "Wet"⟩,
    implies "Wet" "Slippery", implies "Rain" "Wet", .unit ⟨true, .const "Rain"⟩]

/-- Three rounds are needed to prove the fall, and two when it is seen that it is wet. -/
theorem entails_ground_mono_rainyDay :
    (∀ c ∈ rainyDay, c ∈ rainyDaySeen) ∧ (∀ c ∈ rainyDaySeen, ∀ l ∈ c, l.isGround = true) ∧
    (Prover.entails {} (fun _ => .zero) rainyDay ⟨true, .const "Fall"⟩).verdict = .proven ∧
    (Prover.entails {} (fun _ => .zero) rainyDay ⟨true, .const "Fall"⟩).tally.rounds = 3 ∧
    (Prover.entails {} (fun _ => .zero) rainyDaySeen ⟨true, .const "Fall"⟩).verdict = .proven ∧
    (Prover.entails {} (fun _ => .zero) rainyDaySeen ⟨true, .const "Fall"⟩).tally.rounds ≤ 3 := by
  have included : ∀ c ∈ rainyDay, c ∈ rainyDaySeen := by
    simp [rainyDay, rainyDaySeen]
  have ground : ∀ c ∈ rainyDaySeen, ∀ l ∈ c, l.isGround = true := by
    simp [rainyDaySeen, implies, Literal.isGround, Term.isGround]
  have proven : (Prover.entails {} (fun _ => .zero) rainyDay ⟨true, .const "Fall"⟩).verdict =
      .proven := by decide +kernel
  have rounds : (Prover.entails {} (fun _ => .zero) rainyDay ⟨true, .const "Fall"⟩).tally.rounds =
      3 := by decide +kernel
  have mono := entails_ground_mono {} (fun _ => .zero) (fun _ => .zero) rainyDay rainyDaySeen
    ⟨true, .const "Fall"⟩ ground rfl included rfl rfl rfl proven
  rw [rounds] at mono
  exact ⟨included, ground, proven, rounds, mono⟩

end Example

end Clausal
