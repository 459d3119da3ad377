import Clausal.Proofs.GroundResolution

/-!
# The order of ground clauses shows in indices only

Over ground clauses two searches that start from the same clauses in different orders go through
rounds that correspond. Only a round that meets the empty clause may differ in its resolvents.
-/

namespace Clausal

set_option autoImplicit false

theorem Roster.perm_of_mem_iff {r r' : Roster Clause} (h : ∀ c, c ∈ r ↔ c ∈ r') :
    r.toList.Perm r'.toList :=
  (List.perm_ext_iff_of_nodup r.nodup r'.nodup).mpr h

/-- Two answers agree in all that does not refer to indices. How much was resolved may differ if a
contradiction was found. -/
structure Answer.Matches (a b : Answer) : Prop where
  verdict : a.verdict = b.verdict
  rounds : a.tally.rounds = b.tally.rounds
  generated : a.tally.generated = b.tally.generated
  clauses : a.tally.clauses = b.tally.clauses
  cutoff : a.tally.cutoff = b.tally.cutoff
  resolutions : a.verdict ≠ .proven → a.tally.resolutions = b.tally.resolutions

namespace Saturation

/-- Two states hold the same clauses and have counted the same. -/
structure Alike (s t : State) : Prop where
  clauses : ∀ c, c ∈ s.holding.clauses ↔ c ∈ t.holding.clauses
  tally : s.tally = t.tally

section Rounds

variable {s t : State} (h : Alike s t)
include h

theorem Alike.size : s.holding.size = t.holding.size :=
  (Roster.perm_of_mem_iff h.clauses).length_eq

theorem Alike.overfull (limits : Limits) :
    overfull limits s.holding = overfull limits t.holding := by
  unfold Saturation.overfull
  rw [h.size]

theorem Alike.finish (verdict : Verdict) (cutoff : Option Cutoff) :
    (s.finish verdict cutoff).answer.Matches (t.finish verdict cutoff).answer := by
  have hsize := h.size
  have htally := h.tally
  constructor <;> simp [State.finish, htally, hsize]

/-- Alike states in which a round is cut short finish alike, except for what it had resolved. -/
theorem Alike.finish_takeEmpty (hit hit' : Hit) :
    ((s.beginRound.takeEmpty hit).finish .proven none).answer.Matches
      ((t.beginRound.takeEmpty hit').finish .proven none).answer := by
  have hsize : (s.beginRound.takeEmpty hit).holding.size =
      (t.beginRound.takeEmpty hit').holding.size := by
    apply List.Perm.length_eq
    apply Roster.perm_of_mem_iff
    intro c
    simp only [State.takeEmpty, Holding.mem_insert]
    exact or_congr_right (h.clauses c)
  have hrounds : s.tally.rounds + 1 = t.tally.rounds + 1 := by rw [h.tally]
  have hgenerated : s.tally.generated = t.tally.generated := by rw [h.tally]
  exact ⟨rfl, hrounds, hgenerated, hsize, rfl, fun hproven => absurd rfl hproven⟩

variable (hground : ∀ c ∈ s.holding.clauses, c.Ground)
include hground

theorem Alike.concludes (e : Clause) :
    Concludes s.holding.clauses e ↔ Concludes t.holding.clauses e := by
  have hground' : ∀ c ∈ t.holding.clauses, c.Ground :=
    fun c hc => hground c ((h.clauses c).mpr hc)
  constructor
  · intro he
    exact he.mono hground' (fun c => (h.clauses c).mp)
  · intro he
    exact he.mono hground (fun c => (h.clauses c).mpr)

theorem Alike.exists_sweep_eq_error {hit : Hit} (hhit : sweep s.holding.clauses = .error hit) :
    ∃ hit', sweep t.holding.clauses = .error hit' := by
  apply exists_sweep_eq_error_iff.mpr
  apply (h.concludes hground .empty).mp
  exact exists_sweep_eq_error_iff.mp ⟨hit, hhit⟩

theorem Alike.exists_sweep_eq_ok {w : Sweep} (hw : sweep s.holding.clauses = .ok w) :
    ∃ w', sweep t.holding.clauses = .ok w' := by
  cases hsweep : sweep t.holding.clauses with
  | ok w' => exact ⟨w', rfl⟩
  | error hit =>
    have hempty := (h.concludes hground .empty).mpr (exists_sweep_eq_error_iff.mp ⟨hit, hsweep⟩)
    obtain ⟨hit', hhit'⟩ := exists_sweep_eq_error_iff.mpr hempty
    rw [hw] at hhit'
    cases hhit'

variable {w w' : Sweep} (hw : sweep s.holding.clauses = .ok w)
  (hw' : sweep t.holding.clauses = .ok w')
include hw hw'

theorem Alike.resolutions : w.resolutions = w'.resolutions := by
  rw [(covers_of_sweep_eq_ok hw).counted, (covers_of_sweep_eq_ok hw').counted]
  exact length_inferences_of_ground hground (Roster.perm_of_mem_iff h.clauses)

theorem Alike.endRound : Alike (s.beginRound.endRound w) (t.beginRound.endRound w') where
  clauses := h.clauses
  tally := by
    simp [State.endRound, State.beginRound, State.add, h.tally, h.resolutions hground hw hw']

theorem Alike.holding_next (c : Clause) :
    c ∈ (s.next w).holding.clauses ↔ c ∈ (t.next w').holding.clauses := by
  rw [State.holding_next, State.holding_next, mem_insertMany_of_sweep hw,
    mem_insertMany_of_sweep hw', h.clauses c, h.concludes hground c]

theorem Alike.length_fresh : w.fresh.length = w'.fresh.length := by
  -- both hold as many clauses before the round, and as many after it
  have hbefore := h.size
  have hafter := (Roster.perm_of_mem_iff (h.holding_next hground hw hw')).length_eq
  have hsize := size_insertMany_of_sweep hw
  have hsize' := size_insertMany_of_sweep hw'
  change (s.holding.insertMany w.fresh).size = (t.holding.insertMany w'.fresh).size at hafter
  omega

theorem Alike.next : Alike (s.next w) (t.next w') where
  clauses := h.holding_next hground hw hw'
  tally := by
    simp [State.next, State.merge, (h.endRound hground hw hw').tally,
      h.length_fresh hground hw hw']

theorem Alike.fresh_eq_nil_iff : w.fresh = [] ↔ w'.fresh = [] := by
  rw [← List.length_eq_zero_iff, h.length_fresh hground hw hw', List.length_eq_zero_iff]

end Rounds

section Runs

variable {limits : Limits} {clock clock' : Clock} {s s' t : State}
  (huntimed : limits.time = none) (h : Alike s t) (hground : ∀ c ∈ s.holding.clauses, c.Ground)
include huntimed h

theorem Alike.starts (hs : Starts limits false clock s) : Starts limits false clock' t := by
  refine ⟨?_, interruption_eq_none huntimed _⟩
  rw [← h.tally]
  exact hs.1

include hground

theorem Alike.advance (hstep : Advance limits false clock s s') :
    ∃ t', Advance limits false clock' t t' ∧ Alike s' t' := by
  cases hstep with
  | @mk w hstarts hw hfresh hroom =>
    obtain ⟨w', hw'⟩ := h.exists_sweep_eq_ok hground hw
    have hnext := h.next hground hw hw'
    have hfresh' := (h.fresh_eq_nil_iff hground hw hw').not.mp hfresh
    rw [hnext.overfull] at hroom
    exact ⟨t.next w', .mk (h.starts huntimed hstarts) hw' hfresh' hroom, hnext⟩

/-- Where one of two alike states ends a search, the other ends it with a matching answer. -/
theorem Alike.ends {report : Report} (hends : Ends limits false clock s report) :
    ∃ report', Ends limits false clock' t report' ∧ report.answer.Matches report'.answer := by
  cases hends with
  | spent hspent =>
    rw [h.tally] at hspent
    exact ⟨_, .spent hspent, h.finish _ _⟩
  | interrupted _ hcut =>
    rw [interruption_eq_none huntimed] at hcut
    cases hcut
  | refuted hstarts hhit =>
    obtain ⟨hit', hhit'⟩ := h.exists_sweep_eq_error hground hhit
    exact ⟨_, .refuted (h.starts huntimed hstarts) hhit', h.finish_takeEmpty _ _⟩
  | @saturated w hstarts hw hfresh =>
    obtain ⟨w', hw'⟩ := h.exists_sweep_eq_ok hground hw
    have hfresh' := (h.fresh_eq_nil_iff hground hw hw').mp hfresh
    exact ⟨_, .saturated (h.starts huntimed hstarts) hw' hfresh',
      (h.endRound hground hw hw').finish _ _⟩
  | @overfull w hstarts hw hfresh hfull =>
    obtain ⟨w', hw'⟩ := h.exists_sweep_eq_ok hground hw
    have hnext := h.next hground hw hw'
    have hfresh' := (h.fresh_eq_nil_iff hground hw hw').not.mp hfresh
    rw [hnext.overfull] at hfull
    exact ⟨_, .overfull (h.starts huntimed hstarts) hw' hfresh' hfull, hnext.finish _ _⟩

end Runs

theorem alike_initial {given given' : ClauseSet} (same : ∀ c, c ∈ given ↔ c ∈ given')
    (query : Literal) : Alike (.initial given query) (.initial given' query) where
  clauses := by
    intro c
    exact Holding.mem_start.trans ((or_congr_right (same c)).trans Holding.mem_start.symm)
  tally := rfl

section Searches

variable {limits : Limits} {clock clock' : Clock} {given given' : ClauseSet} {query : Literal}
  (huntimed : limits.time = none) (same : ∀ c, c ∈ given ↔ c ∈ given')
  (hgiven : ∀ c ∈ given, c.Ground) (hquery : query.isGround = true)
include huntimed same hgiven hquery

theorem exists_alike_of_advances (hempty : ¬ .empty ∈ (Holding.start given query).clauses)
    {s : State} (hs : Relation.ReflTransGen (Advance limits false clock) (.initial given query) s) :
    ∃ t, Relation.ReflTransGen (Advance limits false clock') (.initial given' query) t ∧
      Alike s t := by
  induction hs with
  | refl => exact ⟨_, .refl, alike_initial same query⟩
  | tail hs hstep ih =>
    obtain ⟨t, ht, halike⟩ := ih
    have hground := ground_of_advances hs hempty hgiven hquery
    obtain ⟨t', hstep', halike'⟩ := halike.advance huntimed hground hstep
    exact ⟨t', ht.tail hstep', halike'⟩

theorem search_matches : (search limits false clock given query).answer.Matches
    (search limits false clock' given' query).answer := by
  have hstart := alike_initial same query
  rcases search_cases limits false clock given query with ⟨hempty, heq⟩ | ⟨hempty, s, hs, hends⟩
  · rw [heq, search_of_empty_mem ((hstart.clauses .empty).mp hempty)]
    exact hstart.finish .proven none
  · obtain ⟨t, ht, halike⟩ := exists_alike_of_advances huntimed same hgiven hquery hempty hs
    have hground := ground_of_advances hs hempty hgiven hquery
    obtain ⟨report', hends', hmatches⟩ := halike.ends huntimed hground hends
    rw [search_of_advances (fun hmem => hempty ((hstart.clauses .empty).mpr hmem)) ht hends']
    exact hmatches

end Searches

end Saturation

open Saturation

/-- Over the same ground clauses in another order a prover that is not timed gives the same verdict
and counts the same, except that it may have resolved more or less when the query is proven. -/
theorem entails_ground_order (p : Prover) (clock clock' : Clock) (given given' : ClauseSet)
    (query : Literal) (same : ∀ c, c ∈ given ↔ c ∈ given')
    (ground : ∀ c ∈ given, ∀ l ∈ c, l.isGround = true) (groundQuery : query.isGround = true)
    (untimed : p.limits.time = none) (running : p.cancelled = false) :
    (p.entails clock given query).Matches (p.entails clock' given' query) := by
  unfold Prover.entails Prover.ask
  rw [running]
  exact search_matches untimed same ground groundQuery

section Example

def denied (a : String) : Clause := .unit ⟨false, .const a⟩

def asserted (a : String) : Clause := .unit ⟨true, .const a⟩

def contradictionFirst : ClauseSet := .ofList
  [asserted "A", denied "A", asserted "B", .ofList [⟨false, .const "B"⟩, ⟨true, .const "C"⟩]]

def contradictionLast : ClauseSet := .ofList
  [.ofList [⟨false, .const "B"⟩, ⟨true, .const "C"⟩], asserted "B", denied "A", asserted "A"]

/-- The two answers match although one search had resolved more when it met the contradiction. -/
theorem entails_ground_order_contradiction :
    (∀ c, c ∈ contradictionFirst ↔ c ∈ contradictionLast) ∧
    (∀ c ∈ contradictionFirst, ∀ l ∈ c, l.isGround = true) ∧
    (Prover.entails {} (fun _ => .zero) contradictionFirst ⟨true, .const "D"⟩).Matches
      (Prover.entails {} (fun _ => .zero) contradictionLast ⟨true, .const "D"⟩) ∧
    (Prover.entails {} (fun _ => .zero) contradictionFirst
      ⟨true, .const "D"⟩).tally.resolutions = 1 ∧
    (Prover.entails {} (fun _ => .zero) contradictionLast
      ⟨true, .const "D"⟩).tally.resolutions = 2 := by
  have same : ∀ c, c ∈ contradictionFirst ↔ c ∈ contradictionLast := by
    intro c
    simp only [contradictionFirst, contradictionLast, Roster.mem_ofList, List.mem_cons,
      List.not_mem_nil, or_false]
    tauto
  have ground : ∀ c ∈ contradictionFirst, ∀ l ∈ c, l.isGround = true := by
    simp [contradictionFirst, asserted, denied, Literal.isGround, Term.isGround]
  refine ⟨same, ground, entails_ground_order _ _ _ _ _ _ same ground rfl rfl rfl, ?_, ?_⟩
  · decide +kernel
  · decide +kernel

end Example

end Clausal
