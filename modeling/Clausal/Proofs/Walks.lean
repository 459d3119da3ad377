import Mathlib.Data.Finset.Card
import Mathlib.Logic.Relation
import Clausal.Refutation

/-!
# Walks along premises

A clause rests on those that premises lead to, through indices that lie in both lists. A walk from
the root takes up pending indices in any order. It comes to an end, since each index is visited
once and brings two premises at most, and what it has met is what the root rests on.
-/

namespace Clausal.Refutation

set_option autoImplicit false

section Graph

variable (clauses : List Clause) (origins : List Origin)

def InRange (i : Nat) : Prop := i < clauses.length ∧ i < origins.length

def Uses (i j : Nat) : Prop := i < clauses.length ∧ ∃ o, origins[i]? = some o ∧ j ∈ o.premises

abbrev RestsOn : Nat → Nat → Prop := Relation.ReflTransGen (Uses clauses origins)

def unseen (seen : List Nat) : Nat := (Finset.range origins.length \ seen.toFinset).card

variable {origins}

theorem unseen_cons {seen : List Nat} {i : Nat} (hi : i < origins.length) (hseen : i ∉ seen) :
    unseen origins (i :: seen) + 1 = unseen origins seen := by
  have hmem : i ∈ Finset.range origins.length \ seen.toFinset := by
    simp [hi, hseen]
  unfold unseen
  rw [List.toFinset_cons, Finset.sdiff_insert, Finset.card_erase_add_one hmem]

theorem length_premises_le (o : Origin) : o.premises.length ≤ 2 := by
  cases o <;> simp [Origin.premises]

end Graph

structure Walk where
  pending : List Nat
  seen : List Nat

namespace Walk

def Met (w : Walk) (i : Nat) : Prop := i ∈ w.pending ∨ i ∈ w.seen

def load (origins : List Origin) (w : Walk) : Nat := w.pending.length + 2 * unseen origins w.seen

end Walk

section Turns

variable (clauses : List Clause) (origins : List Origin)

/-- A turn takes up a pending index, no matter which. It drops one that was seen before and visits
a new one, whose premises then are pending. An index outside the lists allows no turn. -/
inductive Turn : Walk → Walk → Prop where
  | drop {before after seen : List Nat} {i : Nat} :
    i ∈ seen → Turn ⟨before ++ i :: after, seen⟩ ⟨before ++ after, seen⟩
  | visit {before after seen : List Nat} {i : Nat} {o : Origin} :
    i ∉ seen → i < clauses.length → origins[i]? = some o →
    Turn ⟨before ++ i :: after, seen⟩ ⟨o.premises ++ (before ++ after), i :: seen⟩

abbrev Turns : Walk → Walk → Prop := Relation.ReflTransGen (Turn clauses origins)

/-- The root has been met; all that was met is something it rests on; and what was seen lies in
both lists and has its premises met. -/
structure Walk.Explores (root : Nat) (w : Walk) : Prop where
  met_root : w.Met root
  restsOn : ∀ i, w.Met i → RestsOn clauses origins root i
  inRange : ∀ i ∈ w.seen, InRange clauses origins i
  met_of_uses : ∀ i ∈ w.seen, ∀ j, Uses clauses origins i j → w.Met j

variable {clauses origins} {root : Nat} {w w' : Walk}

theorem Turn.load_lt (h : Turn clauses origins w w') : w'.load origins < w.load origins := by
  cases h with
  | drop _ =>
    simp only [Walk.load, List.length_append, List.length_cons]
    omega
  | @visit before after seen i o hnew _ ho =>
    have hcount := unseen_cons (List.getElem?_eq_some_iff.mp ho).1 hnew
    have hpremises := length_premises_le o
    simp only [Walk.load, List.length_append, List.length_cons]
    omega

theorem Turn.drop_head {i : Nat} {pending seen : List Nat} (hseen : i ∈ seen) :
    Turn clauses origins ⟨i :: pending, seen⟩ ⟨pending, seen⟩ :=
  @Turn.drop _ _ [] pending seen i hseen

theorem Turn.visit_head {i : Nat} {o : Origin} {pending seen : List Nat} (hnew : i ∉ seen)
    (hclause : i < clauses.length) (horigin : origins[i]? = some o) :
    Turn clauses origins ⟨i :: pending, seen⟩ ⟨o.premises ++ pending, i :: seen⟩ :=
  @Turn.visit _ _ [] pending seen i o hnew hclause horigin

variable (clauses origins) in
theorem wellFounded_turn : WellFounded (fun w' w => Turn clauses origins w w') :=
  Subrelation.wf Turn.load_lt (measure (Walk.load origins)).wf

theorem exists_turn (hne : w.pending ≠ []) (hrange : ∀ i ∈ w.pending, InRange clauses origins i) :
    ∃ w', Turn clauses origins w w' := by
  obtain ⟨pending, seen⟩ := w
  obtain ⟨i, after, rfl⟩ := List.exists_cons_of_ne_nil hne
  by_cases hseen : i ∈ seen
  · exact ⟨_, Turn.drop_head hseen⟩
  · obtain ⟨hclause, horigin⟩ := hrange i List.mem_cons_self
    exact ⟨_, Turn.visit_head hseen hclause (List.getElem?_eq_getElem horigin)⟩

variable (clauses origins root) in
theorem explores_start : Walk.Explores clauses origins root ⟨[root], []⟩ := by
  refine ⟨Or.inl List.mem_cons_self, ?_, ?_, ?_⟩
  · rintro i (hi | hi)
    · rw [List.mem_singleton.mp hi]
    · cases hi
  · intro i hi
    cases hi
  · intro i hi
    cases hi

theorem Turn.met (h : Turn clauses origins w w') {i : Nat} (hi : w.Met i) : w'.Met i := by
  cases h with
  | drop hseen =>
    rcases hi with hi | hi
    · rcases List.mem_append.mp hi with hi | hi
      · exact Or.inl (List.mem_append_left _ hi)
      rcases List.mem_cons.mp hi with rfl | hi
      · exact Or.inr hseen
      · exact Or.inl (List.mem_append_right _ hi)
    · exact Or.inr hi
  | visit _ _ _ =>
    rcases hi with hi | hi
    · rcases List.mem_append.mp hi with hi | hi
      · exact Or.inl (List.mem_append_right _ (List.mem_append_left _ hi))
      rcases List.mem_cons.mp hi with rfl | hi
      · exact Or.inr List.mem_cons_self
      · exact Or.inl (List.mem_append_right _ (List.mem_append_right _ hi))
    · exact Or.inr (List.mem_cons_of_mem _ hi)

/-- What a turn has newly met is a premise of the index that it visits. -/
theorem Turn.met_or_uses (h : Turn clauses origins w w') {j : Nat} (hj : w'.Met j) :
    w.Met j ∨ ∃ i, w.Met i ∧ Uses clauses origins i j := by
  cases h with
  | drop hseen =>
    refine Or.inl (hj.imp ?_ id)
    intro hj
    rcases List.mem_append.mp hj with hj | hj
    · exact List.mem_append_left _ hj
    · exact List.mem_append_right _ (List.mem_cons_of_mem _ hj)
  | @visit before after seen i o _ hclause horigin =>
    have hi : i ∈ before ++ i :: after := List.mem_append_right _ List.mem_cons_self
    rcases hj with hj | hj
    · rcases List.mem_append.mp hj with hj | hj
      · exact Or.inr ⟨i, Or.inl hi, hclause, o, horigin, hj⟩
      rcases List.mem_append.mp hj with hj | hj
      · exact Or.inl (Or.inl (List.mem_append_left _ hj))
      · exact Or.inl (Or.inl (List.mem_append_right _ (List.mem_cons_of_mem _ hj)))
    · rcases List.mem_cons.mp hj with rfl | hj
      · exact Or.inl (Or.inl hi)
      · exact Or.inl (Or.inr hj)

/-- What a turn has newly seen lies in both lists, and its premises have been met. -/
theorem Turn.seen_or_visited (h : Turn clauses origins w w') {i : Nat} (hi : i ∈ w'.seen) :
    i ∈ w.seen ∨ (InRange clauses origins i ∧ ∀ j, Uses clauses origins i j → w'.Met j) := by
  cases h with
  | drop _ => exact Or.inl hi
  | @visit before after seen k o _ hclause horigin =>
    rcases List.mem_cons.mp hi with rfl | hi
    · refine Or.inr ⟨⟨hclause, (List.getElem?_eq_some_iff.mp horigin).1⟩, ?_⟩
      rintro j ⟨-, o', ho', hj⟩
      obtain rfl := Option.some.inj (horigin.symm.trans ho')
      exact Or.inl (List.mem_append_left _ hj)
    · exact Or.inl hi

theorem Walk.Explores.turn (hw : w.Explores clauses origins root)
    (h : Turn clauses origins w w') : w'.Explores clauses origins root := by
  refine ⟨h.met hw.met_root, ?_, ?_, ?_⟩
  · intro j hj
    rcases h.met_or_uses hj with hj | ⟨i, hi, hij⟩
    · exact hw.restsOn j hj
    · exact (hw.restsOn i hi).tail hij
  · intro i hi
    rcases h.seen_or_visited hi with hi | ⟨hrange, -⟩
    · exact hw.inRange i hi
    · exact hrange
  · intro i hi j hij
    rcases h.seen_or_visited hi with hi | ⟨-, hmet⟩
    · exact h.met (hw.met_of_uses i hi j hij)
    · exact hmet j hij

theorem explores_of_turns (h : Turns clauses origins ⟨[root], []⟩ w) :
    w.Explores clauses origins root := by
  induction h with
  | refl => exact explores_start clauses origins root
  | tail _ hturn ih => exact ih.turn hturn

/-- With nothing pending, what was seen is closed under premises. -/
theorem Walk.Explores.mem_seen_iff (hw : w.Explores clauses origins root) (hend : w.pending = [])
    {i : Nat} : i ∈ w.seen ↔ RestsOn clauses origins root i := by
  have seen_of_met {j : Nat} (hj : w.Met j) : j ∈ w.seen := by
    unfold Met at hj
    rw [hend] at hj
    exact hj.resolve_left List.not_mem_nil
  constructor
  · intro hi
    exact hw.restsOn i (Or.inr hi)
  · intro hi
    induction hi with
    | refl => exact seen_of_met hw.met_root
    | tail _ huses ih => exact seen_of_met (hw.met_of_uses _ ih _ huses)

end Turns

end Clausal.Refutation
