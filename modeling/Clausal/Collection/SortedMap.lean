/-!
# Sorted maps

A finite map written as its entries in strictly increasing order of the keys. Every operation has a
lemma that says what it does to `get?`, and maps with the same `get?` are equal values.
-/

namespace Clausal

set_option autoImplicit false

universe u v

/-- A finite map, kept as the list of its entries with strictly increasing keys. -/
structure SortedMap (κ : Type u) (β : Type v) [Ord κ] where
  toList : List (κ × β)
  increasing : toList.Pairwise (fun a b => compare a.1 b.1 = .lt)
deriving DecidableEq

namespace SortedMap

variable {κ : Type u} {β : Type v} [Ord κ]

def empty : SortedMap κ β := ⟨[], List.Pairwise.nil⟩

instance : EmptyCollection (SortedMap κ β) := ⟨empty⟩

instance : Inhabited (SortedMap κ β) := ⟨empty⟩

def singleton (k : κ) (b : β) : SortedMap κ β := ⟨[(k, b)], List.pairwise_singleton _ _⟩

def size (m : SortedMap κ β) : Nat := m.toList.length

def isEmpty (m : SortedMap κ β) : Bool := m.toList.isEmpty

def keys (m : SortedMap κ β) : List κ := m.toList.map Prod.fst

def values (m : SortedMap κ β) : List β := m.toList.map Prod.snd

/-- The value of the first entry with the given key. -/
def lookup [DecidableEq κ] (k : κ) : List (κ × β) → Option β
  | [] => none
  | (k', b) :: rest => if k = k' then some b else lookup k rest

def get? [DecidableEq κ] (m : SortedMap κ β) (k : κ) : Option β := lookup k m.toList

def contains [DecidableEq κ] (m : SortedMap κ β) (k : κ) : Bool := (m.get? k).isSome

/-- Puts an entry in its place in a list with increasing keys, replacing one with an equal key. -/
def place (k : κ) (b : β) : List (κ × β) → List (κ × β)
  | [] => [(k, b)]
  | (k', b') :: rest =>
    match compare k k' with
    | .lt => (k, b) :: (k', b') :: rest
    | .eq => (k, b) :: rest
    | .gt => (k', b') :: place k b rest

theorem fst_of_mem_place {k : κ} {b : β} {e : κ × β} {es : List (κ × β)}
    (h : e ∈ place k b es) : e.1 = k ∨ e ∈ es := by
  induction es with
  | nil =>
    simp only [place, List.mem_singleton] at h
    exact Or.inl (by rw [h])
  | cons d rest ih =>
    cases hd : compare k d.1 with
    | lt =>
      simp only [place, hd, List.mem_cons] at h
      rcases h with h | h
      · exact Or.inl (by rw [h])
      · exact Or.inr (List.mem_cons.mpr h)
    | eq =>
      simp only [place, hd, List.mem_cons] at h
      rcases h with h | h
      · exact Or.inl (by rw [h])
      · exact Or.inr (List.mem_cons_of_mem d h)
    | gt =>
      simp only [place, hd, List.mem_cons] at h
      rcases h with h | h
      · exact Or.inr (List.mem_cons.mpr (Or.inl h))
      · exact (ih h).imp id (List.mem_cons_of_mem d)

theorem pairwise_place [Std.TransOrd κ] [Std.LawfulEqOrd κ] {k : κ} {b : β} {es : List (κ × β)}
    (h : es.Pairwise (fun a b => compare a.1 b.1 = .lt)) :
    (place k b es).Pairwise (fun a b => compare a.1 b.1 = .lt) := by
  induction es with
  | nil => simp [place]
  | cons d rest ih =>
    have hd := List.pairwise_cons.mp h
    cases hk : compare k d.1 with
    | lt =>
      simp only [place, hk]
      refine List.pairwise_cons.mpr ⟨?_, h⟩
      intro e he
      rcases List.mem_cons.mp he with he | he
      · exact he ▸ hk
      · exact Std.TransCmp.lt_trans hk (hd.1 e he)
    | eq =>
      have hkd : k = d.1 := Std.LawfulEqOrd.eq_of_compare hk
      simp only [place, hk]
      refine List.pairwise_cons.mpr ⟨?_, hd.2⟩
      intro e he
      exact hkd ▸ hd.1 e he
    | gt =>
      simp only [place, hk]
      refine List.pairwise_cons.mpr ⟨?_, ih hd.2⟩
      intro e he
      rcases fst_of_mem_place he with he | he
      · exact he ▸ Std.OrientedCmp.gt_iff_lt.mp hk
      · exact hd.1 e he

def mapValues {γ : Type v} (f : β → γ) (m : SortedMap κ β) : SortedMap κ γ :=
  ⟨m.toList.map (fun e => (e.1, f e.2)), List.pairwise_map.mpr m.increasing⟩

@[simp] theorem get?_empty [DecidableEq κ] {x : κ} : (empty : SortedMap κ β).get? x = none := rfl

@[simp] theorem get?_singleton [DecidableEq κ] {k x : κ} {b : β} :
    (singleton k b).get? x = if x = k then some b else none := by
  simp [singleton, get?, lookup]

@[simp] theorem get?_mapValues [DecidableEq κ] {γ : Type v} {f : β → γ} {m : SortedMap κ β}
    {x : κ} : (m.mapValues f).get? x = (m.get? x).map f := by
  cases m with
  | mk es h =>
    simp only [get?, mapValues]
    clear h
    induction es with
    | nil => rfl
    | cons e rest ih =>
      simp only [List.map_cons, lookup]
      split
      · rfl
      · exact ih

section Lawful

variable [Std.TransOrd κ] [Std.LawfulEqOrd κ]

/-- Adds an entry; an entry with the same key gives way. -/
def insert (m : SortedMap κ β) (k : κ) (b : β) : SortedMap κ β :=
  ⟨place k b m.toList, pairwise_place m.increasing⟩

/-- The entries of both maps; where both have a key, the first map's entry stays. -/
def union (m n : SortedMap κ β) : SortedMap κ β :=
  m.toList.foldr (fun e acc => acc.insert e.1 e.2) n

variable [DecidableEq κ]

omit [Std.TransOrd κ] in
theorem lookup_place {k x : κ} {b : β} {es : List (κ × β)} :
    lookup x (place k b es) = if x = k then some b else lookup x es := by
  induction es with
  | nil => by_cases h : x = k <;> simp [place, lookup, h]
  | cons e rest ih =>
    cases hk : compare k e.1 with
    | lt => by_cases h : x = k <;> simp [place, hk, lookup, h]
    | eq =>
      have hke : k = e.1 := Std.LawfulEqOrd.eq_of_compare hk
      by_cases h : x = k <;> simp [place, lookup, h, ← hke]
    | gt =>
      have hne : ¬ k = e.1 := by
        intro hke
        simp [hke] at hk
      by_cases h : x = k
      · subst h
        simp [place, hk, lookup, ih, hne]
      · simp [place, hk, lookup, ih, h]

@[simp] theorem get?_insert {m : SortedMap κ β} {k x : κ} {b : β} :
    (m.insert k b).get? x = if x = k then some b else m.get? x :=
  lookup_place

@[simp] theorem get?_union {m n : SortedMap κ β} {x : κ} :
    (m.union n).get? x = (m.get? x).or (n.get? x) := by
  cases m with
  | mk es h =>
    simp only [get?, union]
    clear h
    induction es with
    | nil => rfl
    | cons e rest ih =>
      rw [List.foldr_cons, insert, lookup_place, ih, lookup]
      by_cases hx : x = e.1 <;> simp [hx]

omit [Std.TransOrd κ] in
theorem lookup_eq_some_iff {k : κ} {b : β} {es : List (κ × β)}
    (h : es.Pairwise (fun a b => compare a.1 b.1 = .lt)) :
    lookup k es = some b ↔ (k, b) ∈ es := by
  induction es with
  | nil => simp [lookup]
  | cons e rest ih =>
    have he := List.pairwise_cons.mp h
    by_cases hk : k = e.1
    · subst hk
      constructor
      · intro hl
        simp only [lookup, ↓reduceIte, Option.some.injEq] at hl
        exact List.mem_cons.mpr (Or.inl (Prod.ext rfl hl.symm))
      · intro hm
        rcases List.mem_cons.mp hm with hm | hm
        · simp only [lookup, ↓reduceIte, Option.some.injEq]
          exact (congrArg Prod.snd hm).symm
        · have hlt := he.1 _ hm
          simp at hlt
    · have hne : ¬ (k, b) = e := fun hb => hk (by rw [← hb])
      simp [lookup, hk, ih he.2, hne]

omit [Std.TransOrd κ] in
theorem get?_eq_some_iff {m : SortedMap κ β} {k : κ} {b : β} :
    m.get? k = some b ↔ (k, b) ∈ m.toList :=
  lookup_eq_some_iff m.increasing

omit [DecidableEq κ] in
/-- Two lists with increasing keys and the same entries are equal. -/
theorem eq_of_pairwise_of_mem_iff {es ds : List (κ × β)}
    (he : es.Pairwise (fun a b => compare a.1 b.1 = .lt))
    (hd : ds.Pairwise (fun a b => compare a.1 b.1 = .lt)) (h : ∀ e, e ∈ es ↔ e ∈ ds) :
    es = ds := by
  have irrefl : ∀ x : κ, compare x x ≠ .lt := by
    intro x hx
    simp at hx
  induction es generalizing ds with
  | nil =>
    cases ds with
    | nil => rfl
    | cons d ds => simpa using h d
  | cons e es ih =>
    cases ds with
    | nil => simpa using h e
    | cons d ds =>
      have pe := List.pairwise_cons.mp he
      have pd := List.pairwise_cons.mp hd
      have hed : e = d := by
        rcases List.mem_cons.mp ((h e).mp List.mem_cons_self) with hed | hm
        · exact hed
        rcases List.mem_cons.mp ((h d).mpr List.mem_cons_self) with hde | hm'
        · exact hde.symm
        exact absurd (Std.TransCmp.lt_trans (pd.1 e hm) (pe.1 d hm')) (irrefl d.1)
      subst hed
      refine congrArg (List.cons e) (ih pe.2 pd.2 ?_)
      intro x
      constructor
      · intro hx
        rcases List.mem_cons.mp ((h x).mp (List.mem_cons_of_mem e hx)) with hxe | hx'
        · exact absurd (hxe ▸ pe.1 x hx) (irrefl x.1)
        · exact hx'
      · intro hx
        rcases List.mem_cons.mp ((h x).mpr (List.mem_cons_of_mem e hx)) with hxe | hx'
        · exact absurd (hxe ▸ pd.1 x hx) (irrefl x.1)
        · exact hx'

/-- A map is determined by what it gives for each key. -/
theorem eq_of_get?_eq {m n : SortedMap κ β} (h : ∀ k, m.get? k = n.get? k) : m = n := by
  have mem : ∀ e, e ∈ m.toList ↔ e ∈ n.toList := by
    intro e
    rw [show e = (e.1, e.2) from rfl, ← get?_eq_some_iff, h, get?_eq_some_iff]
  have hl := eq_of_pairwise_of_mem_iff m.increasing n.increasing mem
  cases m
  cases n
  subst hl
  rfl

end Lawful

end SortedMap

end Clausal
