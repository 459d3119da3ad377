import Clausal.Saturation.Round

/-!
# What a round of saturation finds

An inference is a resolvent of two held clauses, the earlier one on the left. A round looks at all
inferences. If none has an empty conclusion, every conclusion is held or among the fresh ones, and
each fresh clause appears once with the indices of an inference that gives it.
-/

namespace Clausal.Saturation

set_option autoImplicit false

universe u v w

section Folds

variable {α : Type u} {β : Type v} {ε : Type w} {f : β → α → Except ε β}

/-- What each successful turn of a fold carries on holds when all turns succeed. -/
theorem foldlM_ok_induction (P : List α → β → Prop)
    (step : ∀ {done b a b'}, P done b → f b a = .ok b' → P (done ++ [a]) b') {as done : List α}
    {b b' : β} (h : as.foldlM f b = .ok b') (hb : P done b) : P (done ++ as) b' := by
  induction as generalizing done b with
  | nil =>
    cases h
    rwa [List.append_nil]
  | cons a as ih =>
    rw [List.foldlM_cons] at h
    cases ha : f b a with
    | error e =>
      rw [ha] at h
      cases h
    | ok c =>
      rw [ha] at h
      have hc := ih h (step hb ha)
      rwa [List.append_assoc] at hc

theorem exists_of_foldlM_eq_error {as : List α} {b : β} {e : ε} (h : as.foldlM f b = .error e) :
    ∃ a ∈ as, ∃ c, f c a = .error e := by
  induction as generalizing b with
  | nil => cases h
  | cons a as ih =>
    rw [List.foldlM_cons] at h
    cases ha : f b a with
    | error e' =>
      rw [ha] at h
      cases h
      exact ⟨a, List.mem_cons_self, b, ha⟩
    | ok c =>
      rw [ha] at h
      obtain ⟨a', ha', hc⟩ := ih h
      exact ⟨a', List.mem_cons_of_mem a ha', hc⟩

end Folds

theorem mem_append_if_absent {α : Type u} {a b : α} {as : List α} [Decidable (a ∈ as)] :
    b ∈ (if a ∈ as then as else as ++ [a]) ↔ b = a ∨ b ∈ as := by
  split
  · rename_i ha
    constructor
    · exact Or.inr
    · intro hb
      rcases hb with rfl | hb
      · exact ha
      · exact hb
  · rw [List.mem_append, List.mem_singleton, or_comm]

/-- A pair stands at two increasing positions of the list. -/
theorem mem_pairs_iff_getElem? {α : Type} {a b : α} {as : List α} :
    (a, b) ∈ pairs as ↔ ∃ i j : Nat, i < j ∧ as[i]? = some a ∧ as[j]? = some b := by
  induction as with
  | nil => simp [pairs]
  | cons c as ih =>
    simp only [pairs, List.mem_append, List.mem_map, Prod.mk.injEq, ih]
    constructor
    · rintro (⟨x, hx, rfl, rfl⟩ | ⟨i, j, hij, hi, hj⟩)
      · obtain ⟨j, hj⟩ := List.mem_iff_getElem?.mp hx
        exact ⟨0, j + 1, Nat.succ_pos j, rfl, hj⟩
      · exact ⟨i + 1, j + 1, Nat.succ_lt_succ hij, hi, hj⟩
    · rintro ⟨i, j, hij, hi, hj⟩
      cases j with
      | zero => cases hij
      | succ j =>
        cases i with
        | zero => exact Or.inl ⟨b, List.mem_of_getElem? hj, Option.some.inj hi, rfl⟩
        | succ i => exact Or.inr ⟨i, j, Nat.lt_of_succ_lt_succ hij, hi, hj⟩

/-- A resolvent of two clauses, each given with its index. -/
structure Inference where
  left : Clause × Nat
  right : Clause × Nat
  resolvent : Resolvent

namespace Inference

def conclusion (x : Inference) : Clause := x.resolvent.conclusion

def origin (x : Inference) : Origin := .resolved x.left.2 x.right.2

end Inference

def inferencesOf (pair : (Clause × Nat) × (Clause × Nat)) : List Inference :=
  (resolvents pair.1.1 pair.2.1).map (Inference.mk pair.1 pair.2)

/-- All inferences from the held clauses, in the order in which a round looks at them. -/
def inferences (held : ClauseSet) : List Inference :=
  (pairs held.toList.zipIdx).flatMap inferencesOf

theorem mem_inferences_iff {held : ClauseSet} {x : Inference} :
    x ∈ inferences held ↔ x.left.2 < x.right.2 ∧ held.toList[x.left.2]? = some x.left.1 ∧
      held.toList[x.right.2]? = some x.right.1 ∧ x.resolvent ∈ resolvents x.left.1 x.right.1 := by
  obtain ⟨⟨c, i⟩, ⟨d, j⟩, r⟩ := x
  have position {c : Clause} {i k : Nat} :
      held.toList.zipIdx[k]? = some (c, i) ↔ k = i ∧ held.toList[i]? = some c := by
    rw [List.getElem?_zipIdx]
    cases hk : held.toList[k]? with
    | none => simp; rintro rfl; simp [hk]
    | some e =>
      simp only [Option.map_some, Option.some.injEq, Prod.mk.injEq, Nat.zero_add]
      constructor
      · rintro ⟨rfl, rfl⟩
        exact ⟨rfl, hk⟩
      · rintro ⟨rfl, h⟩
        exact ⟨Option.some.inj (hk.symm.trans h), rfl⟩
  simp only [inferences, inferencesOf, List.mem_flatMap, List.mem_map, Inference.mk.injEq]
  constructor
  · rintro ⟨⟨p, q⟩, hpq, r', hr, rfl, rfl, rfl⟩
    obtain ⟨k, l, hkl, hk, hl⟩ := mem_pairs_iff_getElem?.mp hpq
    obtain ⟨rfl, hc⟩ := position.mp hk
    obtain ⟨rfl, hd⟩ := position.mp hl
    exact ⟨hkl, hc, hd, hr⟩
  · rintro ⟨hij, hc, hd, hr⟩
    refine ⟨((c, i), (d, j)), mem_pairs_iff_getElem?.mpr ?_, r, hr, rfl, rfl, rfl⟩
    exact ⟨i, j, hij, position.mpr ⟨rfl, hc⟩, position.mpr ⟨rfl, hd⟩⟩

namespace Sweep

/-- What is known when the given inferences have been looked at. -/
structure Covers (held : ClauseSet) (done : List Inference) (w : Sweep) : Prop where
  known : ∀ x ∈ done, x.conclusion ≠ .empty ∧
    (x.conclusion ∈ held ∨ x.conclusion ∈ w.fresh.map Prod.fst)
  found : ∀ f ∈ w.fresh, ¬ f.1 ∈ held ∧ ∃ x ∈ done, f = (x.conclusion, x.origin)
  distinct : (w.fresh.map Prod.fst).Nodup
  counted : w.resolutions = done.length

theorem map_fst_record (fresh : List (Clause × Origin)) (c : Clause) (o : Origin) :
    (record fresh c o).map Prod.fst =
      if c ∈ fresh.map Prod.fst then fresh.map Prod.fst else fresh.map Prod.fst ++ [c] := by
  unfold record
  by_cases h : c ∈ fresh.map Prod.fst
  · have hany : fresh.any (fun f => f.1 = c) = true := by simpa using h
    rw [if_pos hany, if_pos h]
  · have hany : ¬ fresh.any (fun f => f.1 = c) = true := by simpa using h
    rw [if_neg hany, if_neg h, List.map_append]
    rfl

theorem mem_map_fst_record {fresh : List (Clause × Origin)} {c d : Clause} {o : Origin} :
    d ∈ (record fresh c o).map Prod.fst ↔ d = c ∨ d ∈ fresh.map Prod.fst := by
  rw [map_fst_record]
  exact mem_append_if_absent

theorem nodup_record {fresh : List (Clause × Origin)} (h : (fresh.map Prod.fst).Nodup) (c : Clause)
    (o : Origin) : ((record fresh c o).map Prod.fst).Nodup := by
  rw [map_fst_record]
  split
  · exact h
  · rename_i hc
    refine List.nodup_append.mpr ⟨h, by simp, ?_⟩
    intro d hd e he hde
    rw [List.mem_singleton.mp he] at hde
    exact hc (hde ▸ hd)

theorem mem_or_eq_of_mem_record {fresh : List (Clause × Origin)} {c : Clause} {o : Origin}
    {f : Clause × Origin} (h : f ∈ record fresh c o) : f ∈ fresh ∨ f = (c, o) := by
  unfold record at h
  split at h
  · exact Or.inl h
  · exact (List.mem_append.mp h).imp id List.mem_singleton.mp

/-- One more inference has been looked at. -/
theorem Covers.extend {held : ClauseSet} {done : List Inference} {w w' : Sweep} {x : Inference}
    (hw : w.Covers held done) (hempty : x.conclusion ≠ .empty)
    (hkeep : ∀ c ∈ w.fresh.map Prod.fst, c ∈ w'.fresh.map Prod.fst)
    (hknown : x.conclusion ∈ held ∨ x.conclusion ∈ w'.fresh.map Prod.fst)
    (hnew : ∀ f ∈ w'.fresh, f ∈ w.fresh ∨ (¬ f.1 ∈ held ∧ f = (x.conclusion, x.origin)))
    (hdistinct : (w'.fresh.map Prod.fst).Nodup) (hcount : w'.resolutions = w.resolutions + 1) :
    w'.Covers held (done ++ [x]) := by
  refine ⟨?_, ?_, hdistinct, ?_⟩
  · intro y hy
    rcases List.mem_append.mp hy with hy | hy
    · obtain ⟨hne, hyw⟩ := hw.known y hy
      exact ⟨hne, hyw.imp id (hkeep y.conclusion)⟩
    · obtain rfl := List.mem_singleton.mp hy
      exact ⟨hempty, hknown⟩
  · intro f hf
    rcases hnew f hf with hf | ⟨hnot, heq⟩
    · obtain ⟨hnot, y, hy, heq⟩ := hw.found f hf
      exact ⟨hnot, y, List.mem_append_left _ hy, heq⟩
    · exact ⟨hnot, x, List.mem_append_right _ List.mem_cons_self, heq⟩
  · rw [hcount, hw.counted, List.length_append, List.length_singleton]

theorem Covers.consider {held : ClauseSet} {done : List Inference} {w w' : Sweep} {x : Inference}
    (hw : w.Covers held done)
    (h : Sweep.consider held x.left x.right w x.resolvent = .ok w') :
    w'.Covers held (done ++ [x]) := by
  unfold Sweep.consider at h
  dsimp only at h
  split at h
  · cases h
  rename_i hempty
  have hne : x.conclusion ≠ .empty := fun he => hempty (Clause.isEmpty_iff.mpr he)
  split at h
  · rename_i hheld
    cases h
    exact hw.extend hne (fun _ hc => hc) (Or.inl hheld) (fun _ hf => Or.inl hf) hw.distinct rfl
  · rename_i hheld
    cases h
    refine hw.extend hne ?_ ?_ ?_ (nodup_record hw.distinct _ _) rfl
    · intro c hc
      exact mem_map_fst_record.mpr (Or.inr hc)
    · exact Or.inr (mem_map_fst_record.mpr (Or.inl rfl))
    · intro f hf
      rcases mem_or_eq_of_mem_record hf with hf | rfl
      · exact Or.inl hf
      · exact Or.inr ⟨hheld, rfl⟩

theorem Covers.resolve {held : ClauseSet} {done : List Inference} {w w' : Sweep}
    {pair : (Clause × Nat) × (Clause × Nat)} (hw : w.Covers held done)
    (h : Sweep.resolve held w pair = .ok w') : w'.Covers held (done ++ inferencesOf pair) := by
  have start (journal : Array Event) : ({ w with journal := journal } : Sweep).Covers held
      (done ++ List.map (Inference.mk pair.1 pair.2) []) := by
    -- the journal, which `resolve` extends first, has no part in what is known
    rw [List.map_nil, List.append_nil]
    exact ⟨hw.known, hw.found, hw.distinct, hw.counted⟩
  have turn {rs : List Resolvent} {w w' : Sweep} {r : Resolvent}
      (hw : w.Covers held (done ++ rs.map (Inference.mk pair.1 pair.2)))
      (hr : Sweep.consider held pair.1 pair.2 w r = .ok w') :
      w'.Covers held (done ++ (rs ++ [r]).map (Inference.mk pair.1 pair.2)) := by
    rw [List.map_append, ← List.append_assoc]
    exact Covers.consider (x := ⟨pair.1, pair.2, r⟩) hw hr
  exact foldlM_ok_induction
    (fun rs w => w.Covers held (done ++ rs.map (Inference.mk pair.1 pair.2))) turn h (start _)

end Sweep

/-- A round that ends has looked at all inferences. -/
theorem covers_of_sweep_eq_ok {held : ClauseSet} {w : Sweep} (h : sweep held = .ok w) :
    w.Covers held (inferences held) := by
  have start : ({} : Sweep).Covers held (List.flatMap inferencesOf []) :=
    ⟨by simp, by simp, List.nodup_nil, rfl⟩
  have turn {ps : List ((Clause × Nat) × (Clause × Nat))} {w w' : Sweep}
      {p : (Clause × Nat) × (Clause × Nat)} (hw : w.Covers held (ps.flatMap inferencesOf))
      (hp : Sweep.resolve held w p = .ok w') :
      w'.Covers held ((ps ++ [p]).flatMap inferencesOf) := by
    rw [List.flatMap_append, List.flatMap_singleton]
    exact hw.resolve hp
  exact foldlM_ok_induction (fun ps w => w.Covers held (ps.flatMap inferencesOf)) turn h start

/-- A round that is cut short has met an inference of the empty clause. -/
theorem exists_of_sweep_eq_error {held : ClauseSet} {hit : Hit} (h : sweep held = .error hit) :
    ∃ x ∈ inferences held, x.conclusion = .empty ∧ x.origin = .resolved hit.left hit.right := by
  obtain ⟨pair, hpair, w, hw⟩ := exists_of_foldlM_eq_error h
  obtain ⟨r, hr, w, hw⟩ := exists_of_foldlM_eq_error hw
  refine ⟨⟨pair.1, pair.2, r⟩, ?_, ?_⟩
  · exact List.mem_flatMap.mpr ⟨pair, hpair, List.mem_map_of_mem hr⟩
  · unfold Sweep.consider at hw
    dsimp only at hw
    split at hw
    · cases hw
      exact ⟨Clause.isEmpty_iff.mp ‹_›, rfl⟩
    · split at hw <;> cases hw

def Concludes (held : ClauseSet) (c : Clause) : Prop := ∃ x ∈ inferences held, x.conclusion = c

/-- A round is cut short exactly if the held clauses conclude the empty clause. -/
theorem exists_sweep_eq_error_iff {held : ClauseSet} :
    (∃ hit, sweep held = .error hit) ↔ Concludes held .empty := by
  constructor
  · intro ⟨hit, h⟩
    obtain ⟨x, hx, hempty, -⟩ := exists_of_sweep_eq_error h
    exact ⟨x, hx, hempty⟩
  · intro ⟨x, hx, hempty⟩
    cases h : sweep held with
    | error hit => exact ⟨hit, rfl⟩
    | ok w => exact absurd hempty ((covers_of_sweep_eq_ok h).known x hx).1

end Clausal.Saturation
