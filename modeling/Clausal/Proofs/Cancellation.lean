import Clausal.Proofs.Searches

/-!
# Cancelled provers

Cancellation is looked at when a round would start, so a cancelled prover still answers the queries
that need no round: those over clauses that hold the empty clause, and all if no round is allowed.
-/

namespace Clausal

set_option autoImplicit false

open Saturation

inductive Request where
  | cancel
  | resume
  | ask (clock : Clock) (given : ClauseSet) (query : Literal)

namespace Prover

/-- The answer to a request, if it has one, and the prover that is left. -/
def handle (p : Prover) : Request → Option Answer × Prover
  | .cancel => (none, p.cancel)
  | .resume => (none, p.resume)
  | .ask clock given query => (some (p.entails clock given query), p)

def serve (p : Prover) : List Request → List (Option Answer)
  | [] => []
  | r :: rs => (p.handle r).1 :: (p.handle r).2.serve rs

def after (p : Prover) (rs : List Request) : Prover := rs.foldl (fun p r => (p.handle r).2) p

theorem getElem?_serve (p : Prover) (rs : List Request) (i : Nat) :
    (p.serve rs)[i]? = rs[i]?.map fun r => ((p.after (rs.take i)).handle r).1 := by
  induction rs generalizing p i with
  | nil => rfl
  | cons r rs ih =>
    cases i with
    | zero => rfl
    | succ i => exact ih (p.handle r).2 i

theorem cancelled_handle_iff {p : Prover} {r : Request} :
    (p.handle r).2.cancelled = true ↔ r = .cancel ∨ (p.cancelled = true ∧ r ≠ .resume) := by
  cases r <;> simp [handle, cancel, resume, setCancelled]

theorem limits_after (p : Prover) (rs : List Request) : (p.after rs).limits = p.limits := by
  induction rs generalizing p with
  | nil => rfl
  | cons r rs ih =>
    have hr : (p.handle r).2.limits = p.limits := by cases r <;> rfl
    exact (ih (p.handle r).2).trans hr

end Prover

/-- Among the requests is a cancellation that no later one lifts. -/
def Cancelled (rs : List Request) : Prop :=
  ∃ earlier later, rs = earlier ++ .cancel :: later ∧ ¬ .resume ∈ later

theorem cancelled_cons {r : Request} {rs : List Request} :
    Cancelled (r :: rs) ↔ Cancelled rs ∨ (r = .cancel ∧ ¬ .resume ∈ rs) := by
  constructor
  · intro ⟨earlier, later, h, hlater⟩
    cases earlier with
    | nil =>
      cases h
      exact Or.inr ⟨rfl, hlater⟩
    | cons e earlier =>
      cases h
      exact Or.inl ⟨earlier, later, rfl, hlater⟩
  · intro h
    rcases h with ⟨earlier, later, rfl, hlater⟩ | ⟨rfl, hlater⟩
    · exact ⟨r :: earlier, later, rfl, hlater⟩
    · exact ⟨[], rs, rfl, hlater⟩

theorem not_cancelled_nil : ¬ Cancelled [] := by
  intro ⟨earlier, later, h, _⟩
  cases earlier <;> cases h

/-- A prover is cancelled after requests that cancel it, or if it was so before and none of them
lets it run. -/
theorem Prover.cancelled_after_iff (p : Prover) (rs : List Request) :
    (p.after rs).cancelled = true ↔
      Cancelled rs ∨ (p.cancelled = true ∧ ¬ .resume ∈ rs) := by
  induction rs generalizing p with
  | nil => simp [after, not_cancelled_nil]
  | cons r rs ih =>
    have step : p.after (r :: rs) = (p.handle r).2.after rs := rfl
    rw [step, ih, cancelled_cons, cancelled_handle_iff, List.mem_cons]
    grind

namespace Saturation

theorem run_congr_clock {limits : Limits} (huntimed : limits.time = none) (cancelled : Bool)
    (clock clock' : Clock) (left : Nat) (s : State) :
    run limits cancelled clock left s = run limits cancelled clock' left s := by
  induction left generalizing s with
  | zero => rfl
  | succ left ih =>
    unfold run
    rw [interruption_congr (Or.inl huntimed) cancelled _ (clock' s.tally.rounds)]
    simp only [ih]

theorem search_congr_clock {limits : Limits} (huntimed : limits.time = none) (cancelled : Bool)
    (clock clock' : Clock) (given : ClauseSet) (query : Literal) :
    search limits cancelled clock given query = search limits cancelled clock' given query := by
  unfold search
  dsimp only
  rw [run_congr_clock huntimed cancelled clock clock']

theorem empty_mem_start_iff {given : ClauseSet} {query : Literal} :
    .empty ∈ (Holding.start given query).clauses ↔ .empty ∈ given := by
  rw [Holding.mem_start]
  constructor
  · intro h
    rcases h with h | h
    · have hmem : query.complement ∈ Clause.empty := h ▸ Clause.mem_unit.mpr rfl
      exact absurd hmem (Clause.not_mem_empty _)
    · exact h
  · exact Or.inr

end Saturation

/-- The search was cut off before its first round because it was cancelled. -/
structure Answer.CutOff (a : Answer) : Prop where
  verdict : a.verdict = .inconclusive
  cutoff : a.tally.cutoff = some .cancelled
  rounds : a.tally.rounds = 0

namespace Prover

variable {limits : Limits} {clock : Clock} {given : ClauseSet} {query : Literal}

theorem cutOff_of_cancelled (hrounds : 0 < limits.rounds) (hempty : ¬ .empty ∈ given) :
    (entails ⟨limits, true⟩ clock given query).CutOff := by
  have hends : Ends limits true clock (.initial given query)
      ((State.initial given query).finish .inconclusive (some .cancelled)) :=
    .interrupted hrounds rfl
  have hsearch := search_of_advances (mt empty_mem_start_iff.mp hempty) .refl hends
  unfold entails ask
  rw [hsearch]
  exact ⟨rfl, rfl, rfl⟩

theorem not_cutOff_of_running : ¬ (entails ⟨limits, false⟩ clock given query).CutOff := by
  intro h
  have hcutoff := h.cutoff
  unfold entails ask at hcutoff
  rcases search_cases limits false clock given query with ⟨-, heq⟩ | ⟨-, s, -, hends⟩
  · rw [heq] at hcutoff
    cases hcutoff
  · generalize search limits false clock given query = report at hends hcutoff
    -- only an interruption could set this cutoff, and it would need a cancellation
    cases hends with
    | spent _ => cases hcutoff
    | interrupted _ hcut =>
      obtain rfl := Option.some.inj hcutoff
      rcases cutoff_of_interruption hcut with ⟨h, -⟩ | h <;> cases h
    | refuted _ _ => cases hcutoff
    | saturated _ _ _ => cases hcutoff
    | overfull _ _ _ _ => cases hcutoff

/-- If the empty clause is given or no round is allowed, neither cancellation nor time plays a
part in the answer. -/
theorem entails_of_settled (h : .empty ∈ given ∨ limits.rounds = 0) (c c' : Bool)
    (clock clock' : Clock) :
    entails ⟨limits, c⟩ clock given query = entails ⟨limits, c'⟩ clock' given query := by
  unfold entails ask
  by_cases hempty : .empty ∈ (Holding.start given query).clauses
  · rw [search_of_empty_mem hempty, search_of_empty_mem hempty]
  · have hrounds : limits.rounds = 0 := h.resolve_left (mt empty_mem_start_iff.mpr hempty)
    have hspent (c : Bool) (clock : Clock) : Ends limits c clock (.initial given query)
        ((State.initial given query).finish .inconclusive (some .rounds)) :=
      .spent hrounds.symm
    rw [search_of_advances hempty .refl (hspent c clock),
      search_of_advances hempty .refl (hspent c' clock')]

theorem cutOff_iff {cancelled : Bool} :
    (entails ⟨limits, cancelled⟩ clock given query).CutOff ↔
      cancelled = true ∧ 0 < limits.rounds ∧ ¬ .empty ∈ given := by
  constructor
  · intro h
    -- a settled query gets the answer of a running prover, which is never cut off
    have hunsettled : ¬ (.empty ∈ given ∨ limits.rounds = 0) := by
      intro hsettled
      rw [entails_of_settled hsettled cancelled false clock clock] at h
      exact not_cutOff_of_running h
    obtain ⟨hempty, hrounds⟩ := not_or.mp hunsettled
    cases cancelled with
    | false => exact absurd h not_cutOff_of_running
    | true => exact ⟨rfl, Nat.pos_of_ne_zero hrounds, hempty⟩
  · intro ⟨hcancelled, hrounds, hempty⟩
    subst hcancelled
    exact cutOff_of_cancelled hrounds hempty

theorem entails_of_not_cutOff {cancelled : Bool} (huntimed : limits.time = none)
    (h : ¬ (entails ⟨limits, cancelled⟩ clock given query).CutOff) (clock' : Clock) :
    entails ⟨limits, cancelled⟩ clock given query = entails ⟨limits, false⟩ clock' given query := by
  cases cancelled with
  | false =>
    unfold entails ask
    rw [search_congr_clock huntimed false clock clock']
  | true =>
    apply entails_of_settled
    by_cases hempty : .empty ∈ given
    · exact Or.inl hempty
    · right
      apply Nat.eq_zero_of_not_pos
      intro hpos
      exact h (cutOff_of_cancelled hpos hempty)

end Prover

/-- In a session with a prover that starts uncancelled, a query is cut off exactly if a cancellation
has not been lifted, a round is allowed and the empty clause is not given. Without a time limit any
other query is answered as by a fresh prover. -/
theorem serve_cutOff_iff (limits : Limits) (requests : List Request) (i : Nat) {clock : Clock}
    {given : ClauseSet} {query : Literal}
    (asked : requests[i]? = some (.ask clock given query)) :
    ∃ answer, (Prover.serve ⟨limits, false⟩ requests)[i]? = some (some answer) ∧
      (answer.CutOff ↔
        Cancelled (requests.take i) ∧ 0 < limits.rounds ∧ ¬ .empty ∈ given) ∧
      (limits.time = none → ¬ answer.CutOff →
        ∀ clock', answer = Prover.entails ⟨limits, false⟩ clock' given query) := by
  obtain ⟨cancelled, hp⟩ : ∃ cancelled,
      Prover.after ⟨limits, false⟩ (requests.take i) = ⟨limits, cancelled⟩ :=
    ⟨_, congrArg (Prover.mk · _) (Prover.limits_after _ _)⟩
  have hcancelled : cancelled = true ↔ Cancelled (requests.take i) := by
    have hiff := Prover.cancelled_after_iff ⟨limits, false⟩ (requests.take i)
    rw [hp] at hiff
    simpa using hiff
  refine ⟨Prover.entails ⟨limits, cancelled⟩ clock given query, ?_, ?_, ?_⟩
  · rw [Prover.getElem?_serve, asked, hp]
    rfl
  · rw [Prover.cutOff_iff, hcancelled]
  · intro untimed
    exact Prover.entails_of_not_cutOff untimed

section Example

def rain : Literal := ⟨true, .const "Rain"⟩

def askRain (given : List Clause) : Request := .ask (fun _ => .zero) (.ofList given) rain

def interruptedSession : List Request :=
  [askRain [.unit rain], .cancel, askRain [.unit rain], .cancel, .resume, askRain [.unit rain]]

/-- The second query is cut off by the cancellation although no time is left either, and the third
one is answered as if nothing had been cancelled. -/
theorem serve_cutOff_iff_interruptedSession :
    Cancelled (interruptedSession.take 2) ∧ ¬ Cancelled (interruptedSession.take 5) ∧
    (∃ answer, (Prover.serve ⟨{ time := some .zero }, false⟩ interruptedSession)[2]? =
      some (some answer) ∧ answer.CutOff) ∧
    ∃ answer, (Prover.serve {} interruptedSession)[5]? = some (some answer) ∧
      answer = Prover.entails {} (fun _ => .zero) (.ofList [.unit rain]) rain := by
  have cancelled : Cancelled (interruptedSession.take 2) :=
    ⟨[askRain [.unit rain]], [], rfl, List.not_mem_nil⟩
  have resumed : ¬ Cancelled (interruptedSession.take 5) := by
    simp [interruptedSession, askRain, cancelled_cons, not_cancelled_nil]
  obtain ⟨answer, served, cutOff, -⟩ :=
    serve_cutOff_iff { time := some .zero } interruptedSession 2 rfl
  obtain ⟨answer', served', cutOff', fresh⟩ :=
    serve_cutOff_iff {} interruptedSession 5 rfl
  refine ⟨cancelled, resumed, ⟨answer, served, cutOff.mpr ⟨cancelled, by decide, by decide⟩⟩, ?_⟩
  exact ⟨answer', served', fresh rfl (fun h => resumed (cutOff'.mp h).1) _⟩

/-- Two queries that a cancelled prover answers: the empty clause is given to the first, and the
second is not allowed a round. -/
theorem exists_cancelled_query_answered :
    Cancelled [.cancel] ∧
    (∃ answer, (Prover.serve {} [.cancel, askRain [.empty]])[1]? = some (some answer) ∧
      answer.verdict = .proven) ∧
    ∃ answer, (Prover.serve ⟨{ rounds := 0 }, false⟩ [.cancel, askRain [.unit rain]])[1]? =
      some (some answer) ∧ answer.tally.cutoff = some .rounds :=
  ⟨⟨[], [], rfl, List.not_mem_nil⟩, ⟨_, rfl, rfl⟩, ⟨_, rfl, rfl⟩⟩

end Example

end Clausal
