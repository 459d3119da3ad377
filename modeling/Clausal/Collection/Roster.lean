/-!
# Rosters

A list without repetition that keeps the order of arrival. A value that is on the roster already
keeps its place; a new one goes to the end.
-/

namespace Clausal

set_option autoImplicit false

universe u

/-- A duplicate-free list in order of arrival. -/
structure Roster (α : Type u) where
  toList : List α
  nodup : toList.Nodup
deriving DecidableEq

namespace Roster

variable {α : Type u}

instance : Membership α (Roster α) where
  mem r a := a ∈ r.toList

instance [DecidableEq α] (a : α) (r : Roster α) : Decidable (a ∈ r) :=
  inferInstanceAs (Decidable (a ∈ r.toList))

theorem mem_toList {a : α} {r : Roster α} : a ∈ r.toList ↔ a ∈ r := Iff.rfl

def empty : Roster α := ⟨[], List.nodup_nil⟩

instance : EmptyCollection (Roster α) := ⟨empty⟩

instance : Inhabited (Roster α) := ⟨empty⟩

def size (r : Roster α) : Nat := r.toList.length

def isEmpty (r : Roster α) : Bool := r.toList.isEmpty

theorem eq_of_toList_eq {r s : Roster α} (h : r.toList = s.toList) : r = s := by
  cases r
  cases s
  subst h
  rfl

section Insert

variable [DecidableEq α]

/-- Adds a value at the end unless it is on the roster already. -/
def insert (r : Roster α) (a : α) : Roster α :=
  if h : a ∈ r.toList then r
  else ⟨r.toList ++ [a], List.nodup_append.mpr ⟨r.nodup, by simp, by
    intro x hx y hy hxy
    rw [List.mem_singleton.mp hy] at hxy
    exact h (hxy ▸ hx)⟩⟩

theorem toList_insert (r : Roster α) (a : α) :
    (r.insert a).toList = if a ∈ r then r.toList else r.toList ++ [a] := by
  unfold insert
  by_cases h : a ∈ r.toList
  · have h' : a ∈ r := h
    simp [h, h']
  · have h' : ¬ a ∈ r := h
    simp [h, h']

theorem size_insert (r : Roster α) (a : α) :
    (r.insert a).size = if a ∈ r then r.size else r.size + 1 := by
  unfold size
  rw [toList_insert]
  split <;> simp

theorem insert_of_mem {r : Roster α} {a : α} (h : a ∈ r) : r.insert a = r :=
  eq_of_toList_eq (by rw [toList_insert, if_pos h])

@[simp] theorem mem_insert {r : Roster α} {a x : α} : x ∈ r.insert a ↔ x = a ∨ x ∈ r := by
  rw [← mem_toList, toList_insert]
  by_cases h : a ∈ r
  · rw [if_pos h, mem_toList]
    constructor
    · exact Or.inr
    · rintro (hx | hx)
      · exact hx ▸ h
      · exact hx
  · simp [h, mem_toList, or_comm]

def insertMany (r : Roster α) (as : List α) : Roster α := as.foldl insert r

@[simp] theorem mem_insertMany {r : Roster α} {as : List α} {x : α} :
    x ∈ r.insertMany as ↔ x ∈ r ∨ x ∈ as := by
  induction as generalizing r with
  | nil => simp [insertMany]
  | cons a as ih =>
    have step : r.insertMany (a :: as) = (r.insert a).insertMany as := rfl
    rw [step, ih]
    simp [or_assoc, or_left_comm]

/-- The values of a list with later repetitions left out. -/
def ofList (as : List α) : Roster α := empty.insertMany as

@[simp] theorem mem_ofList {as : List α} {x : α} : x ∈ ofList as ↔ x ∈ as := by
  rw [ofList, mem_insertMany, ← mem_toList]
  simp [empty]

theorem toList_insertMany_of_nodup {r : Roster α} {as : List α} (h : (r.toList ++ as).Nodup) :
    (r.insertMany as).toList = r.toList ++ as := by
  induction as generalizing r with
  | nil => simp [insertMany]
  | cons a as ih =>
    have ha : ¬ a ∈ r := by
      intro ha
      exact (List.nodup_append.mp h).2.2 a ha a List.mem_cons_self rfl
    have hr : (r.insert a).toList = r.toList ++ [a] := by rw [toList_insert, if_neg ha]
    have step : r.insertMany (a :: as) = (r.insert a).insertMany as := rfl
    rw [step, ih (by rw [hr]; simpa using h), hr]
    simp

/-- Listing a roster and reading the list again changes nothing. -/
@[simp] theorem ofList_toList (r : Roster α) : ofList r.toList = r :=
  eq_of_toList_eq (by
    rw [ofList, toList_insertMany_of_nodup (by simpa [empty] using r.nodup)]
    simp [empty])

end Insert

end Roster

end Clausal
