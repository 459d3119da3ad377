import Mathlib.Logic.Relation
import Clausal.Prover
import Clausal.Proofs.Rounds

/-!
# Searches as transition systems

`Advance` is a round after which the search goes on, and `Ends` lists the ways in which it stops.
What is held changes by one clause at a time, and `Derivable` says how; the invariants of a search
are stated for it. `Outcome` sums up what an answer says about the clauses held at the end.
-/

namespace Clausal.Saturation

set_option autoImplicit false

namespace Holding

theorem clauses_insert (h : Holding) (c : Clause) (o : Origin) :
    (h.insert c o).clauses = h.clauses.insert c := by
  by_cases hc : c ∈ h.clauses
  · simp [insert, hc, Roster.insert_of_mem]
  · simp [insert, hc]

theorem clauses_insertMany (h : Holding) (fresh : List (Clause × Origin)) :
    (h.insertMany fresh).clauses = h.clauses.insertMany (fresh.map Prod.fst) := by
  induction fresh generalizing h with
  | nil => rfl
  | cons f fresh ih =>
    have step : h.insertMany (f :: fresh) = (h.insert f.1 f.2).insertMany fresh := rfl
    rw [step, ih, clauses_insert]
    rfl

theorem toList_insert (h : Holding) (c : Clause) (o : Origin) :
    (h.insert c o).clauses.toList =
      if c ∈ h.clauses then h.clauses.toList else h.clauses.toList ++ [c] := by
  rw [clauses_insert, Roster.toList_insert]

theorem origins_insert (h : Holding) (c : Clause) (o : Origin) :
    (h.insert c o).origins = if c ∈ h.clauses then h.origins else h.origins ++ [o] := by
  by_cases hc : c ∈ h.clauses <;> simp [insert, hc]

theorem prefix_insert (h : Holding) (c : Clause) (o : Origin) :
    h.clauses.toList <+: (h.insert c o).clauses.toList := by
  rw [toList_insert]
  split
  · exact List.prefix_rfl
  · exact List.prefix_append _ _

@[simp] theorem mem_insert {h : Holding} {c d : Clause} {o : Origin} :
    d ∈ (h.insert c o).clauses ↔ d = c ∨ d ∈ h.clauses := by
  rw [clauses_insert, Roster.mem_insert]

@[simp] theorem mem_insertMany {h : Holding} {fresh : List (Clause × Origin)} {d : Clause} :
    d ∈ (h.insertMany fresh).clauses ↔ d ∈ h.clauses ∨ d ∈ fresh.map Prod.fst := by
  rw [clauses_insertMany, Roster.mem_insertMany]

@[simp] theorem mem_start {given : ClauseSet} {query : Literal} {c : Clause} :
    c ∈ (start given query).clauses ↔ c = .unit query.complement ∨ c ∈ given :=
  mem_insert

end Holding

namespace State

def initial (given : ClauseSet) (query : Literal) : State := ⟨.start given query, {}, #[]⟩

def next (s : State) (w : Sweep) : State := (s.beginRound.endRound w).merge w

@[simp] theorem holding_next (s : State) (w : Sweep) :
    (s.next w).holding = s.holding.insertMany w.fresh := rfl

@[simp] theorem rounds_next (s : State) (w : Sweep) :
    (s.next w).tally.rounds = s.tally.rounds + 1 := rfl

end State

theorem interruption_eq_none {limits : Limits} (huntimed : limits.time = none)
    (elapsed : Duration) : interruption limits false elapsed = none := by
  simp [interruption, huntimed]

/-- With no time limit, or one of zero, the clock does not matter. -/
theorem interruption_congr {limits : Limits}
    (huntimed : limits.time = none ∨ limits.time = some .zero) (cancelled : Bool)
    (elapsed elapsed' : Duration) :
    interruption limits cancelled elapsed = interruption limits cancelled elapsed' := by
  have hzero (d : Duration) : d.reaches .zero = true := decide_eq_true (Nat.zero_le _)
  rcases huntimed with htime | htime
  · simp only [interruption, htime]
  · simp only [interruption, htime, hzero]

theorem cutoff_of_interruption {limits : Limits} {cancelled : Bool} {elapsed : Duration}
    {cutoff : Cutoff} (h : interruption limits cancelled elapsed = some cutoff) :
    (cancelled = true ∧ cutoff = .cancelled) ∨ cutoff = .time := by
  unfold interruption at h
  split at h
  · exact Or.inl ⟨‹_›, (Option.some.inj h).symm⟩
  · split at h
    · cases h
    · split at h
      · exact Or.inr (Option.some.inj h).symm
      · cases h

theorem overfull_iff {limits : Limits} {h : Holding} :
    overfull limits h = true ↔ ∃ bound, limits.clauses = some bound ∧ bound < h.size := by
  unfold overfull
  cases limits.clauses <;> simp

section Runs

variable (limits : Limits) (cancelled : Bool) (clock : Clock)

def Starts (s : State) : Prop :=
  s.tally.rounds < limits.rounds ∧ interruption limits cancelled (clock s.tally.rounds) = none

/-- A round that finds new clauses and leaves room for more. -/
inductive Advance : State → State → Prop where
  | mk {s : State} {w : Sweep} : Starts limits cancelled clock s →
    sweep s.holding.clauses = .ok w → w.fresh ≠ [] → overfull limits (s.next w).holding = false →
    Advance s (s.next w)

inductive Ends (s : State) : Report → Prop where
  | spent : s.tally.rounds = limits.rounds → Ends s (s.finish .inconclusive (some .rounds))
  | interrupted {cutoff : Cutoff} : s.tally.rounds < limits.rounds →
    interruption limits cancelled (clock s.tally.rounds) = some cutoff →
    Ends s (s.finish .inconclusive (some cutoff))
  | refuted {hit : Hit} : Starts limits cancelled clock s → sweep s.holding.clauses = .error hit →
    Ends s ((s.beginRound.takeEmpty hit).finish .proven none)
  | saturated {w : Sweep} : Starts limits cancelled clock s → sweep s.holding.clauses = .ok w →
    w.fresh = [] → Ends s ((s.beginRound.endRound w).finish .disproven none)
  | overfull {w : Sweep} : Starts limits cancelled clock s → sweep s.holding.clauses = .ok w →
    w.fresh ≠ [] → overfull limits (s.next w).holding = true →
    Ends s ((s.next w).finish .inconclusive (some .clauses))

variable {limits cancelled clock}

theorem Advance.starts {s t : State} (h : Advance limits cancelled clock s t) :
    Starts limits cancelled clock s := by
  cases h
  assumption

theorem Advance.rounds {s t : State} (h : Advance limits cancelled clock s t) :
    t.tally.rounds = s.tally.rounds + 1 := by
  cases h
  rfl

theorem Ends.rounds_le {s : State} {report : Report} (h : Ends limits cancelled clock s report) :
    report.answer.tally.rounds ≤ s.tally.rounds + 1 := by
  cases h with
  | spent _ => exact Nat.le_succ _
  | interrupted _ _ => exact Nat.le_succ _
  | refuted _ _ => exact Nat.le_refl _
  | saturated _ _ _ => exact Nat.le_refl _
  | overfull _ _ _ _ => exact Nat.le_refl _

/-- With a round left and no other limit a search ends with a conclusion. -/
theorem Ends.conclusive {s : State} {report : Report} (h : Ends limits false clock s report)
    (hleft : s.tally.rounds < limits.rounds) (hclauses : limits.clauses = none)
    (huntimed : limits.time = none) :
    report.answer.verdict = .proven ∨ report.answer.verdict = .disproven := by
  cases h with
  | spent hspent => omega
  | interrupted _ hcut =>
    rw [interruption_eq_none huntimed] at hcut
    cases hcut
  | refuted _ _ => exact Or.inl rfl
  | saturated _ _ _ => exact Or.inr rfl
  | overfull _ _ _ hfull =>
    obtain ⟨bound, hbound, -⟩ := overfull_iff.mp hfull
    rw [hclauses] at hbound
    cases hbound

theorem run_ends {left : Nat} {s : State} (h : s.tally.rounds + left = limits.rounds) :
    ∃ t, Relation.ReflTransGen (Advance limits cancelled clock) s t ∧
      Ends limits cancelled clock t (run limits cancelled clock left s) := by
  induction left generalizing s with
  | zero => exact ⟨s, .refl, .spent h⟩
  | succ left ih =>
    have hlt : s.tally.rounds < limits.rounds := by omega
    unfold run
    split
    · exact ⟨s, .refl, .interrupted hlt ‹_›⟩
    rename_i hgo
    split
    · exact ⟨s, .refl, .refuted ⟨hlt, hgo⟩ ‹_›⟩
    rename_i w hw
    dsimp only
    split
    · exact ⟨s, .refl, .saturated ⟨hlt, hgo⟩ hw (List.isEmpty_iff.mp ‹_›)⟩
    rename_i hfresh
    have hfresh : w.fresh ≠ [] := fun h => hfresh (List.isEmpty_iff.mpr h)
    split
    · exact ⟨s, .refl, .overfull ⟨hlt, hgo⟩ hw hfresh ‹_›⟩
    rename_i hroom
    have hround : (s.next w).tally.rounds + left = limits.rounds := by
      rw [State.rounds_next]
      omega
    obtain ⟨t, hadvance, hends⟩ := ih hround
    have hstep : Advance limits cancelled clock s (s.next w) :=
      .mk ⟨hlt, hgo⟩ hw hfresh (Bool.eq_false_iff.mpr hroom)
    exact ⟨t, Relation.ReflTransGen.head hstep hadvance, hends⟩

theorem exists_left {left : Nat} {s : State} (hrounds : s.tally.rounds + left = limits.rounds)
    (hlt : s.tally.rounds < limits.rounds) : ∃ n, left = n + 1 :=
  Nat.exists_eq_add_one.mpr (by omega)

theorem run_succ_of_advance {left : Nat} {s t : State} (h : Advance limits cancelled clock s t) :
    run limits cancelled clock (left + 1) s = run limits cancelled clock left t := by
  cases h with
  | @mk w hstarts hw hfresh hroom =>
    have hmore : w.fresh.isEmpty = false := List.isEmpty_eq_false_iff.mpr hfresh
    unfold State.next at hroom ⊢
    rw [run, hstarts.2]
    simp only [hw, hmore, hroom, Bool.false_eq_true, if_false]

theorem run_of_ends {left : Nat} {s : State} {report : Report}
    (hrounds : s.tally.rounds + left = limits.rounds) (h : Ends limits cancelled clock s report) :
    run limits cancelled clock left s = report := by
  cases h with
  | spent hspent =>
    obtain rfl : left = 0 := by omega
    rfl
  | interrupted hlt hcut =>
    obtain ⟨n, rfl⟩ := exists_left hrounds hlt
    rw [run, hcut]
  | refuted hstarts hw =>
    obtain ⟨n, rfl⟩ := exists_left hrounds hstarts.1
    rw [run, hstarts.2]
    simp only [hw]
  | saturated hstarts hw hfresh =>
    obtain ⟨n, rfl⟩ := exists_left hrounds hstarts.1
    rw [run, hstarts.2]
    simp only [hw, hfresh, List.isEmpty_nil, if_true]
  | @overfull w hstarts hw hfresh hfull =>
    obtain ⟨n, rfl⟩ := exists_left hrounds hstarts.1
    have hmore : w.fresh.isEmpty = false := List.isEmpty_eq_false_iff.mpr hfresh
    unfold State.next at hfull ⊢
    rw [run, hstarts.2]
    simp only [hw, hmore, hfull, Bool.false_eq_true, if_false, if_true]

/-- Where advances lead to and how they end is what the rounds loop answers. -/
theorem run_of_advances {left : Nat} {s t : State} {report : Report}
    (hrounds : s.tally.rounds + left = limits.rounds)
    (h : Relation.ReflTransGen (Advance limits cancelled clock) s t)
    (hends : Ends limits cancelled clock t report) :
    run limits cancelled clock left s = report := by
  induction h using Relation.ReflTransGen.head_induction_on generalizing left with
  | refl => exact run_of_ends hrounds hends
  | head hstep _ ih =>
    obtain ⟨n, rfl⟩ := exists_left hrounds hstep.starts.1
    rw [run_succ_of_advance hstep]
    apply ih
    rw [hstep.rounds]
    omega

variable (limits cancelled clock)

theorem search_cases (given : ClauseSet) (query : Literal) :
    (.empty ∈ (Holding.start given query).clauses ∧
      search limits cancelled clock given query =
        State.finish ⟨.start given query, {}, #[.contradictory query]⟩ .proven none) ∨
    (¬ .empty ∈ (Holding.start given query).clauses ∧
      ∃ t, Relation.ReflTransGen (Advance limits cancelled clock) (.initial given query) t ∧
        Ends limits cancelled clock t (search limits cancelled clock given query)) := by
  unfold search
  dsimp only
  split
  · exact Or.inl ⟨‹_›, rfl⟩
  · refine Or.inr ⟨‹_›, ?_⟩
    exact run_ends (Nat.zero_add _)

variable {limits cancelled clock}

theorem search_of_empty_mem {given : ClauseSet} {query : Literal}
    (hempty : .empty ∈ (Holding.start given query).clauses) :
    search limits cancelled clock given query =
      State.finish ⟨.start given query, {}, #[.contradictory query]⟩ .proven none :=
  if_pos hempty

theorem search_of_advances {given : ClauseSet} {query : Literal} {t : State} {report : Report}
    (hempty : ¬ .empty ∈ (Holding.start given query).clauses)
    (h : Relation.ReflTransGen (Advance limits cancelled clock) (.initial given query) t)
    (hends : Ends limits cancelled clock t report) :
    search limits cancelled clock given query = report := by
  unfold search
  dsimp only
  rw [if_neg hempty]
  exact run_of_advances (Nat.zero_add _) h hends

end Runs

/-- What can be held: the given clauses and the negated query, and then the conclusion of one
inference after the other. -/
inductive Derivable (given : ClauseSet) (query : Literal) : Holding → Prop where
  | start : Derivable given query (.start given query)
  | infer {h : Holding} {x : Inference} : Derivable given query h → x ∈ inferences h.clauses →
    Derivable given query (h.insert x.conclusion x.origin)

theorem ne_of_getElem? {held : ClauseSet} {i j : Nat} (hij : i < j) {c d : Clause}
    (hc : held.toList[i]? = some c) (hd : held.toList[j]? = some d) : c ≠ d := by
  rintro rfl
  obtain ⟨hi, -⟩ := List.getElem?_eq_some_iff.mp hc
  have := (List.getElem?_inj hi held.nodup).mp (hc.trans hd.symm)
  omega

/-- What holds of the clauses that a search starts with and passes to the resolvents of different
clauses holds of all clauses that it can come to hold. -/
theorem Derivable.forall_mem {P : Clause → Prop} {given : ClauseSet} {query : Literal}
    {h : Holding} (hh : Derivable given query h)
    (hstart : ∀ c ∈ (Holding.start given query).clauses, P c)
    (hresolvent : ∀ {c d : Clause} {r : Resolvent}, c ≠ d → P c → P d → r ∈ resolvents c d →
      P r.conclusion) : ∀ c ∈ h.clauses, P c := by
  induction hh with
  | start => exact hstart
  | @infer h x _ hx ih =>
    intro c hc
    rcases Holding.mem_insert.mp hc with rfl | hc
    · obtain ⟨hlt, hleft, hright, hr⟩ := mem_inferences_iff.mp hx
      apply hresolvent (ne_of_getElem? hlt hleft hright) _ _ hr
      · exact ih _ (List.mem_of_getElem? hleft)
      · exact ih _ (List.mem_of_getElem? hright)
    · exact ih c hc

theorem Derivable.mem_of_mem_start {given : ClauseSet} {query : Literal} {h : Holding}
    (hh : Derivable given query h) {c : Clause} (hc : c ∈ (Holding.start given query).clauses) :
    c ∈ h.clauses := by
  induction hh with
  | start => exact hc
  | infer _ _ ih => exact Holding.mem_insert.mpr (Or.inr ih)

theorem getElem?_of_prefix {cs ds : List Clause} (h : cs <+: ds) {i : Nat} {c : Clause}
    (hc : cs[i]? = some c) : ds[i]? = some c := by
  obtain ⟨es, rfl⟩ := h
  obtain ⟨hi, -⟩ := List.getElem?_eq_some_iff.mp hc
  rw [List.getElem?_append_left hi, hc]

theorem inferences_mono {held held' : ClauseSet} (h : held.toList <+: held'.toList)
    {x : Inference} (hx : x ∈ inferences held) : x ∈ inferences held' := by
  obtain ⟨hlt, hleft, hright, hr⟩ := mem_inferences_iff.mp hx
  exact mem_inferences_iff.mpr ⟨hlt, getElem?_of_prefix h hleft,
    getElem?_of_prefix h hright, hr⟩

theorem Derivable.insertMany {given : ClauseSet} {query : Literal} {h : Holding}
    {fresh : List (Clause × Origin)} (hh : Derivable given query h)
    (hfresh : ∀ f ∈ fresh, ∃ x ∈ inferences h.clauses, f = (x.conclusion, x.origin)) :
    Derivable given query (h.insertMany fresh) := by
  induction fresh generalizing h with
  | nil => exact hh
  | cons f fresh ih =>
    obtain ⟨⟨x, hx, hf⟩, hrest⟩ := List.forall_mem_cons.mp hfresh
    subst hf
    refine ih (hh.infer hx) ?_
    intro g hg
    obtain ⟨y, hy, rfl⟩ := hrest g hg
    exact ⟨y, inferences_mono (h.prefix_insert _ _) hy, rfl⟩

/-- Two different held clauses are resolved, one way or the other. -/
theorem concludes_or {held : ClauseSet} {c d : Clause} (hc : c ∈ held) (hd : d ∈ held)
    (hne : c ≠ d) :
    (∀ r ∈ resolvents c d, Concludes held r.conclusion) ∨
      ∀ r ∈ resolvents d c, Concludes held r.conclusion := by
  obtain ⟨i, hi⟩ := List.mem_iff_getElem?.mp hc
  obtain ⟨j, hj⟩ := List.mem_iff_getElem?.mp hd
  rcases Nat.lt_trichotomy i j with hij | rfl | hji
  · left
    intro r hr
    exact ⟨⟨(c, i), (d, j), r⟩, mem_inferences_iff.mpr ⟨hij, hi, hj, hr⟩, rfl⟩
  · exact absurd (Option.some.inj (hi.symm.trans hj)) hne
  · right
    intro r hr
    exact ⟨⟨(d, j), (c, i), r⟩, mem_inferences_iff.mpr ⟨hji, hj, hi, hr⟩, rfl⟩

def Saturated (held : ClauseSet) : Prop := ∀ x ∈ inferences held, x.conclusion ∈ held

theorem Saturated.mem_of_concludes {held : ClauseSet} (h : Saturated held) {c : Clause}
    (hc : Concludes held c) : c ∈ held := by
  obtain ⟨x, hx, rfl⟩ := hc
  exact h x hx

/-- Which way two held clauses are resolved depends on which of them arrived first. -/
theorem Saturated.conclusion_mem_or {held : ClauseSet} (h : Saturated held) {c d : Clause}
    (hc : c ∈ held) (hd : d ∈ held) (hne : c ≠ d) :
    (∀ r ∈ resolvents c d, r.conclusion ∈ held) ∨ ∀ r ∈ resolvents d c, r.conclusion ∈ held := by
  rcases concludes_or hc hd hne with hcd | hdc
  · exact Or.inl fun r hr => h.mem_of_concludes (hcd r hr)
  · exact Or.inr fun r hr => h.mem_of_concludes (hdc r hr)

theorem Derivable.sweep {given : ClauseSet} {query : Literal} {h : Holding} {w : Sweep}
    (hh : Derivable given query h) (hw : sweep h.clauses = .ok w) :
    Derivable given query (h.insertMany w.fresh) := by
  apply hh.insertMany
  intro f hf
  exact ((covers_of_sweep_eq_ok hw).found f hf).2

theorem empty_not_mem_insertMany {h : Holding} {w : Sweep} (hw : sweep h.clauses = .ok w)
    (hempty : ¬ .empty ∈ h.clauses) : ¬ .empty ∈ (h.insertMany w.fresh).clauses := by
  have covers := covers_of_sweep_eq_ok hw
  rw [Holding.mem_insertMany]
  rintro (hmem | hmem)
  · exact hempty hmem
  · obtain ⟨f, hf, hfe⟩ := List.mem_map.mp hmem
    obtain ⟨-, x, hx, rfl⟩ := covers.found f hf
    exact (covers.known x hx).1 hfe

/-- After a full round the clauses are held that were held before or that these conclude. -/
theorem mem_insertMany_of_sweep {h : Holding} {w : Sweep} (hw : sweep h.clauses = .ok w)
    {c : Clause} :
    c ∈ (h.insertMany w.fresh).clauses ↔ c ∈ h.clauses ∨ Concludes h.clauses c := by
  have covers := covers_of_sweep_eq_ok hw
  rw [Holding.mem_insertMany]
  constructor
  · intro hc
    rcases hc with hc | hc
    · exact Or.inl hc
    · obtain ⟨f, hf, rfl⟩ := List.mem_map.mp hc
      obtain ⟨-, x, hx, rfl⟩ := covers.found f hf
      exact Or.inr ⟨x, hx, rfl⟩
  · intro hc
    rcases hc with hc | ⟨x, hx, rfl⟩
    · exact Or.inl hc
    · exact (covers.known x hx).2

/-- A full round takes in all that it found. -/
theorem size_insertMany_of_sweep {h : Holding} {w : Sweep} (hw : sweep h.clauses = .ok w) :
    (h.insertMany w.fresh).size = h.size + w.fresh.length := by
  have covers := covers_of_sweep_eq_ok hw
  have hnodup : (h.clauses.toList ++ w.fresh.map Prod.fst).Nodup := by
    refine List.nodup_append.mpr ⟨h.clauses.nodup, covers.distinct, ?_⟩
    intro c hc d hd hcd
    obtain ⟨f, hf, rfl⟩ := List.mem_map.mp hd
    exact (covers.found f hf).1 (hcd ▸ hc)
  unfold Holding.size Roster.size
  rw [Holding.clauses_insertMany, Roster.toList_insertMany_of_nodup hnodup, List.length_append,
    List.length_map]

section Advances

variable {limits : Limits} {cancelled : Bool} {clock : Clock}

theorem Advance.size_lt {s t : State} (h : Advance limits cancelled clock s t) :
    s.holding.size < t.holding.size := by
  cases h with
  | mk _ hw hfresh _ =>
    have hpos := List.length_pos_iff.mpr hfresh
    rw [State.holding_next, size_insertMany_of_sweep hw]
    omega

/-- What is held has grown by a clause at least for every round. -/
theorem rounds_add_size_le_of_advances {s t : State}
    (h : Relation.ReflTransGen (Advance limits cancelled clock) s t) :
    t.tally.rounds + s.holding.size ≤ s.tally.rounds + t.holding.size := by
  induction h with
  | refl => exact Nat.le_refl _
  | tail _ hstep ih =>
    have hsize := hstep.size_lt
    have hrounds := hstep.rounds
    omega

theorem derivable_of_advances {given : ClauseSet} {query : Literal} {t : State}
    (h : Relation.ReflTransGen (Advance limits cancelled clock) (.initial given query) t)
    (hempty : ¬ .empty ∈ (Holding.start given query).clauses) :
    Derivable given query t.holding ∧ ¬ .empty ∈ t.holding.clauses := by
  induction h with
  | refl => exact ⟨.start, hempty⟩
  | tail _ hstep ih =>
    cases hstep with
    | mk _ hw _ _ => exact ⟨ih.1.sweep hw, empty_not_mem_insertMany hw ih.2⟩

end Advances

/-- What an answer says about the clauses held at the end of the search. -/
inductive Outcome (given : ClauseSet) (query : Literal) : Answer → Prop where
  | proven {h : Holding} {tally : Tally} : Derivable given query h → .empty ∈ h.clauses →
    Outcome given query ⟨.proven, tally, h.refutation⟩
  | disproven {h : Holding} {tally : Tally} : Derivable given query h → ¬ .empty ∈ h.clauses →
    Saturated h.clauses → tally.clauses = h.size → Outcome given query ⟨.disproven, tally, none⟩
  | inconclusive {tally : Tally} : Outcome given query ⟨.inconclusive, tally, none⟩

theorem outcome_search (limits : Limits) (cancelled : Bool) (clock : Clock) (given : ClauseSet)
    (query : Literal) : Outcome given query (search limits cancelled clock given query).answer := by
  rcases search_cases limits cancelled clock given query with ⟨hempty, heq⟩ | ⟨hempty, t, ht, hends⟩
  · rw [heq]
    exact .proven .start hempty
  obtain ⟨hderivable, hempty⟩ := derivable_of_advances ht hempty
  generalize search limits cancelled clock given query = report at hends
  cases hends with
  | spent _ => exact .inconclusive
  | interrupted _ _ => exact .inconclusive
  | refuted _ hw =>
    obtain ⟨x, hx, hconclusion, horigin⟩ := exists_of_sweep_eq_error hw
    have hlast := hderivable.infer hx
    rw [hconclusion, horigin] at hlast
    exact .proven hlast (Holding.mem_insert.mpr (Or.inl rfl))
  | @saturated w _ hw hfresh =>
    refine .disproven hderivable hempty ?_ rfl
    intro x hx
    rcases ((covers_of_sweep_eq_ok hw).known x hx).2 with hheld | hnew
    · exact hheld
    · rw [hfresh] at hnew
      cases hnew
  | overfull _ _ _ _ => exact .inconclusive

theorem outcome_entails (p : Prover) (clock : Clock) (given : ClauseSet) (query : Literal) :
    Outcome given query (p.entails clock given query) :=
  outcome_search p.limits p.cancelled clock given query

end Clausal.Saturation
