import Clausal.Proofs.Walks

/-!
# Extraction finds what a clause rests on

The walk that `extract` makes takes up the first pending index at each turn. It succeeds when no
index outside one of the lists is met, and the steps are then those of the indices met, each once
and in increasing order.
-/

namespace Clausal.Refutation

set_option autoImplicit false

variable {clauses : List Clause} {origins : List Origin} {root : Nat}

section Reach

variable {turns : Nat} {pending seen : List Nat}

theorem turns_of_reach {out : List Nat} (h : reach clauses origins turns pending seen = some out) :
    Turns clauses origins ⟨pending, seen⟩ ⟨[], out⟩ := by
  induction turns generalizing pending seen with
  | zero => cases h
  | succ turns ih =>
    cases pending with
    | nil =>
      cases h
      exact .refl
    | cons i pending =>
      unfold reach at h
      split at h
      · exact (ih h).head (Turn.drop_head ‹_›)
      split at h
      · rename_i hseen hlt
        split at h
        · cases h
        · exact (ih h).head (Turn.visit_head hseen hlt ‹_›)
      · cases h

/-- With enough turns a walk that stays in range comes to its end. -/
theorem exists_reach_eq_some (hturns : Walk.load origins ⟨pending, seen⟩ < turns)
    (hrange : ∀ i ∈ pending, ∀ j, RestsOn clauses origins i j → InRange clauses origins j) :
    ∃ out, reach clauses origins turns pending seen = some out := by
  induction turns generalizing pending seen with
  | zero => omega
  | succ turns ih =>
    cases pending with
    | nil => exact ⟨seen, rfl⟩
    | cons i pending =>
      have hrest : ∀ k ∈ pending, ∀ j, RestsOn clauses origins k j → InRange clauses origins j :=
        fun k hk => hrange k (List.mem_cons_of_mem i hk)
      unfold reach
      split
      · rename_i hseen
        have hturn : Turn clauses origins ⟨i :: pending, seen⟩ ⟨pending, seen⟩ :=
          Turn.drop_head hseen
        have hload := hturn.load_lt
        exact ih (by omega) hrest
      rename_i hseen
      obtain ⟨hlt, horigin⟩ := hrange i List.mem_cons_self i .refl
      have hget := List.getElem?_eq_getElem horigin
      have hturn : Turn clauses origins ⟨i :: pending, seen⟩ _ := Turn.visit_head hseen hlt hget
      have hload := hturn.load_lt
      rw [if_pos hlt, hget]
      refine ih (by omega) ?_
      intro k hk j hkj
      rcases List.mem_append.mp hk with hk | hk
      · exact hrange i List.mem_cons_self j (hkj.head ⟨hlt, _, hget, hk⟩)
      · exact hrest k hk j hkj

theorem explores_of_reach {out : List Nat} (h : reach clauses origins turns [root] [] = some out) :
    Walk.Explores clauses origins root ⟨[], out⟩ :=
  explores_of_turns (turns_of_reach h)

end Reach

theorem step?_eq_some_iff {i : Nat} {s : Step} :
    step? clauses origins i = some s ↔
      s.index = i ∧ origins[i]? = some s.origin ∧ clauses[i]? = some s.conclusion := by
  obtain ⟨index, origin, conclusion⟩ := s
  unfold step?
  cases origins[i]? <;> cases clauses[i]? <;> simp [eq_comm]

/-- The steps are those of the indices that the root rests on, in increasing order. -/
structure Extracts (clauses : List Clause) (origins : List Origin) (root : Nat)
    (r : Refutation) : Prop where
  root_eq : r.root = root
  increasing : r.steps.Pairwise (fun s t => s.index < t.index)
  inRange : ∀ i, RestsOn clauses origins root i → InRange clauses origins i
  mem_steps_iff : ∀ s, s ∈ r.steps ↔ RestsOn clauses origins root s.index ∧
    origins[s.index]? = some s.origin ∧ clauses[s.index]? = some s.conclusion

theorem extracts_of_extract_eq_some {r : Refutation}
    (h : extract clauses origins root = some r) : Extracts clauses origins root r := by
  unfold extract at h
  split at h
  · cases h
  rename_i seen hreach
  cases h
  have hexplores := explores_of_reach hreach
  refine ⟨rfl, ?_, ?_, ?_⟩
  · refine List.Pairwise.filterMap _ ?_ (List.pairwise_lt_range.filter _)
    intro i j hij s hs t ht
    rw [(step?_eq_some_iff.mp hs).1, (step?_eq_some_iff.mp ht).1]
    exact hij
  · intro i hi
    exact hexplores.inRange i ((hexplores.mem_seen_iff rfl).mpr hi)
  · intro s
    simp only [List.mem_filterMap, List.mem_filter, List.mem_range, decide_eq_true_eq,
      step?_eq_some_iff, hexplores.mem_seen_iff rfl]
    constructor
    · rintro ⟨i, ⟨-, hi⟩, rfl, horigin, hclause⟩
      exact ⟨hi, horigin, hclause⟩
    · rintro ⟨hi, horigin, hclause⟩
      exact ⟨s.index, ⟨(List.getElem?_eq_some_iff.mp hclause).1, hi⟩, rfl, horigin, hclause⟩

/-- Every index that the root rests on has its step. -/
theorem Extracts.exists_step {r : Refutation} (hr : Extracts clauses origins root r) {i : Nat}
    (hi : RestsOn clauses origins root i) :
    ∃ s ∈ r.steps, s.index = i ∧ origins[i]? = some s.origin ∧ clauses[i]? = some s.conclusion := by
  obtain ⟨hclause, horigin⟩ := hr.inRange i hi
  have ho := List.getElem?_eq_getElem horigin
  have hc := List.getElem?_eq_getElem hclause
  exact ⟨⟨i, origins[i], clauses[i]⟩, (hr.mem_steps_iff _).mpr ⟨hi, ho, hc⟩, rfl, ho, hc⟩

theorem exists_extract_eq_some
    (h : ∀ i, RestsOn clauses origins root i → InRange clauses origins i) :
    ∃ r, extract clauses origins root = some r := by
  have hunseen : unseen origins [] = origins.length := by
    simp [unseen]
  have hreach : ∃ seen, reach clauses origins (2 * origins.length + 2) [root] [] = some seen := by
    apply exists_reach_eq_some
    · rw [Walk.load, hunseen, List.length_singleton]
      omega
    · simpa using h
  obtain ⟨seen, hseen⟩ := hreach
  unfold extract
  rw [hseen]
  exact ⟨_, rfl⟩

theorem extract_eq_none_iff :
    extract clauses origins root = none ↔
      ∃ i, RestsOn clauses origins root i ∧ ¬ InRange clauses origins i := by
  constructor
  · intro hnone
    by_contra hno
    have hrange : ∀ i, RestsOn clauses origins root i → InRange clauses origins i := by
      intro i hi
      by_contra hout
      exact hno ⟨i, hi, hout⟩
    obtain ⟨r, hr⟩ := exists_extract_eq_some hrange
    rw [hnone] at hr
    cases hr
  · rintro ⟨i, hi, hout⟩
    cases h : extract clauses origins root with
    | none => rfl
    | some r => exact absurd ((extracts_of_extract_eq_some h).inRange i hi) hout

theorem Extracts.mem_indices_iff {r : Refutation} (hr : Extracts clauses origins root r) {i : Nat} :
    i ∈ r.steps.map Step.index ↔ RestsOn clauses origins root i := by
  rw [List.mem_map]
  constructor
  · rintro ⟨s, hs, rfl⟩
    exact ((hr.mem_steps_iff s).mp hs).1
  · intro hi
    obtain ⟨s, hs, hindex, -⟩ := hr.exists_step hi
    exact ⟨s, hs, hindex⟩

theorem Walk.Explores.exists_extract {w : Walk} (hw : w.Explores clauses origins root)
    (hend : w.pending = []) :
    ∃ r, extract clauses origins root = some r ∧
      ∀ i, i ∈ r.steps.map Step.index ↔ i ∈ w.seen := by
  have hrange : ∀ i, RestsOn clauses origins root i → InRange clauses origins i :=
    fun i hi => hw.inRange i ((hw.mem_seen_iff hend).mpr hi)
  obtain ⟨r, hr⟩ := exists_extract_eq_some hrange
  refine ⟨r, hr, fun i => ?_⟩
  rw [hw.mem_seen_iff hend, (extracts_of_extract_eq_some hr).mem_indices_iff]

/-- Extraction is exact reachability. Every walk from the root ends, whatever pending index it
takes up next; it ends with nothing pending or at an index outside the lists, and that decides
between a refutation and none. There is none exactly if the root rests on an index outside. A
refutation has a step for each index that the root rests on, once and in increasing order, with the
clause and the origin of that index. -/
theorem extract_exact (clauses : List Clause) (origins : List Origin) (root : Nat) :
    WellFounded (fun w' w => Turn clauses origins w w') ∧
    (∀ w, Turns clauses origins ⟨[root], []⟩ w →
      (w.pending = [] ∨ (∃ i ∈ w.pending, ¬ InRange clauses origins i) ∨
        ∃ w', Turn clauses origins w w') ∧
      (w.pending = [] → ∃ r, extract clauses origins root = some r ∧
        ∀ i, i ∈ r.steps.map Step.index ↔ i ∈ w.seen) ∧
      ((∃ i ∈ w.pending, ¬ InRange clauses origins i) → extract clauses origins root = none)) ∧
    (extract clauses origins root = none ↔
      ∃ i, RestsOn clauses origins root i ∧ ¬ InRange clauses origins i) ∧
    ∀ r, extract clauses origins root = some r →
      r.root = root ∧ (r.steps.map Step.index).Pairwise (· < ·) ∧
      (∀ i, i ∈ r.steps.map Step.index ↔ RestsOn clauses origins root i) ∧
      ∀ s ∈ r.steps, origins[s.index]? = some s.origin ∧ clauses[s.index]? = some s.conclusion := by
  refine ⟨wellFounded_turn clauses origins, ?_, extract_eq_none_iff, ?_⟩
  · intro w hturns
    have hw := explores_of_turns hturns
    refine ⟨?_, hw.exists_extract, ?_⟩
    · by_cases hend : w.pending = []
      · exact Or.inl hend
      by_cases hout : ∃ i ∈ w.pending, ¬ InRange clauses origins i
      · exact Or.inr (Or.inl hout)
      · refine Or.inr (Or.inr (exists_turn hend fun i hi => ?_))
        by_contra hi'
        exact hout ⟨i, hi, hi'⟩
    · rintro ⟨i, hi, hout⟩
      exact extract_eq_none_iff.mpr ⟨i, hw.restsOn i (Or.inl hi), hout⟩
  · intro r hr
    have hextracts := extracts_of_extract_eq_some hr
    exact ⟨hextracts.root_eq, List.pairwise_map.mpr hextracts.increasing,
      fun _ => hextracts.mem_indices_iff, fun s hs => ((hextracts.mem_steps_iff s).mp hs).2⟩

section Example

/-- Of four clauses the second and the third are resolved from each other, the third also from
itself. There is one origin too many. -/
def entangled : List Origin :=
  [.given, .resolved 0 2, .resolved 1 2, .negatedQuery, .resolved 7 7]

theorem extract_exact_entangled :
    extract (List.replicate 4 .empty) entangled 1 =
      some ⟨[⟨0, .given, .empty⟩, ⟨1, .resolved 0 2, .empty⟩, ⟨2, .resolved 1 2, .empty⟩], 1⟩ ∧
    ([0, 1, 2].Pairwise (· < ·) ∧
      ∀ i, i ∈ [0, 1, 2] ↔ RestsOn (List.replicate 4 .empty) entangled 1 i) ∧
    extract (List.replicate 4 .empty) entangled 4 = none := by
  have hsome : extract (List.replicate 4 .empty) entangled 1 =
      some ⟨[⟨0, .given, .empty⟩, ⟨1, .resolved 0 2, .empty⟩, ⟨2, .resolved 1 2, .empty⟩], 1⟩ := by
    decide
  obtain ⟨-, hincreasing, hindices, -⟩ := (extract_exact _ _ _).2.2.2 _ hsome
  refine ⟨hsome, ⟨hincreasing, hindices⟩, (extract_exact _ _ _).2.2.1.mpr ⟨4, .refl, ?_⟩⟩
  rintro ⟨hclause, -⟩
  simp at hclause

end Example

end Clausal.Refutation
