/-!
# Sorted sets

A finite set written as its members in strictly increasing order, so that two sets with the same
members are equal values. Each operation has a membership lemma.
-/

namespace Clausal

set_option autoImplicit false

universe u

/-- A finite set, kept as the strictly increasing list of its members. -/
structure SortedSet (α : Type u) [Ord α] where
  toList : List α
  increasing : toList.Pairwise (fun a b => compare a b = .lt)
deriving DecidableEq

namespace SortedSet

variable {α : Type u} [Ord α]

instance : Membership α (SortedSet α) where
  mem s a := a ∈ s.toList

instance [DecidableEq α] (a : α) (s : SortedSet α) : Decidable (a ∈ s) :=
  inferInstanceAs (Decidable (a ∈ s.toList))

instance : Ord (SortedSet α) where
  compare s t := compare s.toList t.toList

theorem mem_toList {a : α} {s : SortedSet α} : a ∈ s.toList ↔ a ∈ s := Iff.rfl

def empty : SortedSet α := ⟨[], List.Pairwise.nil⟩

instance : EmptyCollection (SortedSet α) := ⟨empty⟩

instance : Inhabited (SortedSet α) := ⟨empty⟩

def singleton (a : α) : SortedSet α := ⟨[a], List.pairwise_singleton _ _⟩

def size (s : SortedSet α) : Nat := s.toList.length

def isEmpty (s : SortedSet α) : Bool := s.toList.isEmpty

@[simp] theorem not_mem_empty (a : α) : ¬ a ∈ (empty : SortedSet α) := by
  simp [← mem_toList, empty]

@[simp] theorem mem_singleton {a b : α} : a ∈ singleton b ↔ a = b := by
  simp [← mem_toList, singleton]

@[simp] theorem isEmpty_iff {s : SortedSet α} : s.isEmpty = true ↔ s = empty := by
  cases s
  simp [isEmpty, empty]

/-- Puts a value in its place in an increasing list, unless an equal one stands there. -/
def place (a : α) : List α → List α
  | [] => [a]
  | b :: bs =>
    match compare a b with
    | .lt => a :: b :: bs
    | .eq => b :: bs
    | .gt => b :: place a bs

theorem mem_place [Std.LawfulEqOrd α] {a x : α} {as : List α} :
    x ∈ place a as ↔ x = a ∨ x ∈ as := by
  induction as with
  | nil => simp [place]
  | cons b bs ih =>
    cases h : compare a b with
    | lt => simp [place, h]
    | eq =>
      have hab : a = b := Std.LawfulEqOrd.eq_of_compare h
      simp [place, hab]
    | gt => simp [place, h, ih, or_left_comm]

theorem pairwise_place [Std.TransOrd α] [Std.LawfulEqOrd α] {a : α} {as : List α}
    (h : as.Pairwise (fun a b => compare a b = .lt)) :
    (place a as).Pairwise (fun a b => compare a b = .lt) := by
  induction as with
  | nil => simp [place]
  | cons b bs ih =>
    have hb := List.pairwise_cons.mp h
    cases hab : compare a b with
    | lt =>
      simp only [place, hab]
      refine List.pairwise_cons.mpr ⟨?_, h⟩
      intro x hx
      cases List.mem_cons.mp hx with
      | inl hxb => exact hxb ▸ hab
      | inr hx => exact Std.TransCmp.lt_trans hab (hb.1 x hx)
    | eq => simpa only [place, hab] using h
    | gt =>
      simp only [place, hab]
      refine List.pairwise_cons.mpr ⟨?_, ih hb.2⟩
      intro x hx
      cases mem_place.mp hx with
      | inl hxa => exact hxa ▸ Std.OrientedCmp.gt_iff_lt.mp hab
      | inr hx => exact hb.1 x hx

/-- Two increasing lists with the same members are equal. -/
theorem eq_of_pairwise_of_mem_iff [Std.TransOrd α] {as bs : List α}
    (ha : as.Pairwise (fun a b => compare a b = .lt))
    (hb : bs.Pairwise (fun a b => compare a b = .lt)) (h : ∀ x, x ∈ as ↔ x ∈ bs) : as = bs := by
  have irrefl : ∀ x : α, compare x x ≠ .lt := by
    intro x hx
    simp [Std.ReflOrd.compare_self] at hx
  induction as generalizing bs with
  | nil =>
    cases bs with
    | nil => rfl
    | cons b bs => simpa using h b
  | cons a as ih =>
    cases bs with
    | nil => simpa using h a
    | cons b bs =>
      have pa := List.pairwise_cons.mp ha
      have pb := List.pairwise_cons.mp hb
      have hab : a = b := by
        cases List.mem_cons.mp ((h a).mp List.mem_cons_self) with
        | inl e => exact e
        | inr hmem =>
          cases List.mem_cons.mp ((h b).mpr List.mem_cons_self) with
          | inl e => exact e.symm
          | inr hmem' =>
            exact absurd (Std.TransCmp.lt_trans (pb.1 a hmem) (pa.1 b hmem')) (irrefl b)
      subst hab
      refine congrArg (List.cons a) (ih pa.2 pb.2 ?_)
      intro x
      constructor
      · intro hx
        cases List.mem_cons.mp ((h x).mp (List.mem_cons_of_mem a hx)) with
        | inl e => exact absurd (e ▸ pa.1 x hx) (irrefl x)
        | inr hx' => exact hx'
      · intro hx
        cases List.mem_cons.mp ((h x).mpr (List.mem_cons_of_mem a hx)) with
        | inl e => exact absurd (e ▸ pb.1 x hx) (irrefl x)
        | inr hx' => exact hx'

/-- A set is determined by its members. -/
theorem eq_of_mem_iff [Std.TransOrd α] {s t : SortedSet α} (h : ∀ x, x ∈ s ↔ x ∈ t) : s = t := by
  cases s with
  | mk as ha =>
    cases t with
    | mk bs hb =>
      have e : as = bs := eq_of_pairwise_of_mem_iff ha hb h
      subst e
      rfl

def erase [DecidableEq α] (s : SortedSet α) (a : α) : SortedSet α :=
  ⟨s.toList.filter (· ≠ a), s.increasing.filter _⟩

@[simp] theorem mem_erase [DecidableEq α] {a x : α} {s : SortedSet α} :
    x ∈ s.erase a ↔ x ∈ s ∧ x ≠ a := by
  simp [← mem_toList, erase]

section Lawful

variable [Std.TransOrd α] [Std.LawfulEqOrd α]

def insert (s : SortedSet α) (a : α) : SortedSet α :=
  ⟨place a s.toList, pairwise_place s.increasing⟩

@[simp] theorem mem_insert {a x : α} {s : SortedSet α} : x ∈ s.insert a ↔ x = a ∨ x ∈ s :=
  mem_place

/-- The set of the values of a list; order and repetition in the list do not show. -/
def ofList (as : List α) : SortedSet α := as.foldr (fun a s => s.insert a) empty

@[simp] theorem mem_ofList {x : α} {as : List α} : x ∈ ofList as ↔ x ∈ as := by
  induction as with
  | nil => simp [ofList]
  | cons a as ih =>
    have step : ofList (a :: as) = (ofList as).insert a := rfl
    simp [step, ih]

theorem ofList_eq_ofList_iff {as bs : List α} :
    ofList as = ofList bs ↔ ∀ x, x ∈ as ↔ x ∈ bs := by
  constructor
  · intro h x
    have hx : x ∈ ofList as ↔ x ∈ ofList bs := by rw [h]
    simpa using hx
  · intro h
    exact eq_of_mem_iff (fun x => by simp [h x])

@[simp] theorem ofList_toList (s : SortedSet α) : ofList s.toList = s :=
  eq_of_mem_iff (fun x => by simp [mem_toList])

def union (s t : SortedSet α) : SortedSet α := ofList (s.toList ++ t.toList)

@[simp] theorem mem_union {x : α} {s t : SortedSet α} : x ∈ s.union t ↔ x ∈ s ∨ x ∈ t := by
  simp [union, mem_toList]

end Lawful

end SortedSet

end Clausal
