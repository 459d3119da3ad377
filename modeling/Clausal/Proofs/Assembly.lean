import Clausal.Proofs.Meaning

/-!
# How a knowledge base was assembled does not matter

Two sequences of additions that say the same, up to order and repetition, lead to the same clauses,
or both to a fault. Which fault it is may differ, because the first one is reported.
-/

namespace Clausal

set_option autoImplicit false

universe u v

section Readings

variable {α β : Type u} {ε : Type v} {f : α → Except ε β} {as : List α}

theorem exists_mapM_eq_ok_iff :
    (∃ bs, as.mapM f = .ok bs) ↔ ∀ a ∈ as, ∃ b, f a = .ok b := by
  constructor
  · intro ⟨bs, hbs⟩ a ha
    exact exists_of_mem_of_forall₂ (forall₂_of_mapM_eq_ok hbs) ha
  · intro h
    induction as with
    | nil => exact ⟨[], rfl⟩
    | cons a as ih =>
      obtain ⟨⟨b, hb⟩, has⟩ := List.forall_mem_cons.mp h
      obtain ⟨bs, hbs⟩ := ih has
      refine ⟨b :: bs, ?_⟩
      rw [List.mapM_cons, hb, hbs]
      rfl

theorem mem_iff_of_mapM_eq_ok {bs : List β} (h : as.mapM f = .ok bs) {b : β} :
    b ∈ bs ↔ ∃ a ∈ as, f a = .ok b := by
  have hread : ∀ a b', f a = .ok b' → (f a = .ok b ↔ b' = b) := by
    intro a b' ha
    rw [ha, Except.ok.injEq]
  rw [exists_mem_iff_of_forall₂ (forall₂_of_mapM_eq_ok h) hread]
  simp

end Readings

namespace Entry

def toClause : Entry → Except Text.Fault Clause
  | fact text => KnowledgeBase.clauseOfFact text
  | rule r => r.toClause
  | clause literals => KnowledgeBase.clauseOfTexts literals

def stored : Entry → Entry
  | fact text => fact text
  | rule r => rule r
  | clause literals => clause (KnowledgeBase.stored literals)

end Entry

namespace KnowledgeBase

def entries (k : KnowledgeBase) : List Entry :=
  k.facts.toList.map .fact ++ k.rules.toList.map .rule ++ k.clauses.toList.map .clause

theorem toClauseList_eq_mapM (k : KnowledgeBase) :
    k.toClauseList = k.entries.mapM Entry.toClause := by
  simp only [toClauseList, entries, List.mapM_append, List.mapM_map, bind_assoc, pure_bind]
  rfl

theorem toClauses_eq_ok_iff {k : KnowledgeBase} {clauses : ClauseSet} :
    k.toClauses = .ok clauses ↔
      ∃ cs, k.entries.mapM Entry.toClause = .ok cs ∧ clauses = .ofList cs := by
  rw [toClauses, toClauseList_eq_mapM]
  constructor
  · intro h
    obtain ⟨cs, hcs, h⟩ := exists_of_bind_eq_ok h
    cases h
    exact ⟨cs, hcs, rfl⟩
  · intro ⟨cs, hcs, h⟩
    rw [hcs, h]
    rfl

theorem exists_toClauses_eq_ok_iff {k : KnowledgeBase} :
    (∃ clauses, k.toClauses = .ok clauses) ↔ ∀ e ∈ k.entries, ∃ c, e.toClause = .ok c := by
  rw [← exists_mapM_eq_ok_iff]
  constructor
  · intro ⟨clauses, h⟩
    obtain ⟨cs, hcs, -⟩ := toClauses_eq_ok_iff.mp h
    exact ⟨cs, hcs⟩
  · intro ⟨cs, hcs⟩
    exact ⟨.ofList cs, toClauses_eq_ok_iff.mpr ⟨cs, hcs, rfl⟩⟩

theorem mem_iff_of_toClauses_eq_ok {k : KnowledgeBase} {clauses : ClauseSet}
    (h : k.toClauses = .ok clauses) {c : Clause} :
    c ∈ clauses ↔ ∃ e ∈ k.entries, e.toClause = .ok c := by
  obtain ⟨cs, hcs, rfl⟩ := toClauses_eq_ok_iff.mp h
  rw [Roster.mem_ofList, mem_iff_of_mapM_eq_ok hcs]

theorem mem_entries_add {k : KnowledgeBase} {e e' : Entry} :
    e' ∈ (k.add e).entries ↔ e' = e.stored ∨ e' ∈ k.entries := by
  cases e <;> cases e' <;> simp [entries, add, Entry.stored, Roster.mem_toList]

theorem mem_entries_addMany {k : KnowledgeBase} {es : List Entry} {e' : Entry} :
    e' ∈ (k.addMany es).entries ↔ e' ∈ k.entries ∨ ∃ e ∈ es, e' = e.stored := by
  induction es generalizing k with
  | nil => simp [addMany]
  | cons e es ih =>
    have step : k.addMany (e :: es) = (k.add e).addMany es := rfl
    rw [step, ih, mem_entries_add, List.exists_mem_cons_iff, or_assoc, or_left_comm]

/-- A list of texts states a clause if all of them can be read, and it holds the literals read. -/
theorem clauseOfTexts_eq_ok_iff {texts : List String} {c : Clause} :
    clauseOfTexts texts = .ok c ↔ (∀ text ∈ texts, ∃ l, Literal.parse text = .ok l) ∧
      ∀ l, l ∈ c ↔ ∃ text ∈ texts, Literal.parse text = .ok l := by
  constructor
  · intro h
    obtain ⟨ls, hls, h⟩ := exists_of_bind_eq_ok h
    cases h
    refine ⟨exists_mapM_eq_ok_iff.mp ⟨ls, hls⟩, ?_⟩
    intro l
    rw [Clause.mem_ofList, mem_iff_of_mapM_eq_ok hls]
  · intro ⟨hreadable, hmem⟩
    obtain ⟨ls, hls⟩ := exists_mapM_eq_ok_iff.mpr hreadable
    -- a clause is determined by its literals, however they were listed
    have hc : c = .ofList ls := by
      apply Clause.eq_of_mem_iff
      intro l
      rw [hmem, Clause.mem_ofList, mem_iff_of_mapM_eq_ok hls]
    rw [clauseOfTexts, hls, hc]
    rfl

theorem clauseOfTexts_congr {texts texts' : List String} (same : ∀ t, t ∈ texts ↔ t ∈ texts')
    {c : Clause} : clauseOfTexts texts = .ok c ↔ clauseOfTexts texts' = .ok c := by
  simp only [clauseOfTexts_eq_ok_iff, same]

end KnowledgeBase

theorem Entry.toClause_stored_eq_ok_iff {e : Entry} {c : Clause} :
    e.stored.toClause = .ok c ↔ e.toClause = .ok c := by
  cases e with
  | fact text => rfl
  | rule r => rfl
  | clause literals =>
    apply KnowledgeBase.clauseOfTexts_congr
    intro t
    exact Roster.mem_ofList

/-- An addition to a knowledge base, with premises and literals as its author lists them. -/
inductive Addition where
  | fact (text : String)
  | rule (premises : List String) (conclusion : String)
  | clause (literals : List String)
deriving DecidableEq

namespace Addition

def entry : Addition → Entry
  | fact text => .fact text
  | rule premises conclusion => .rule (.ofList premises conclusion)
  | clause literals => .clause literals

/-- Two additions say the same up to order and repetition of premises or literals. -/
inductive Same : Addition → Addition → Prop where
  | fact (text : String) : Same (fact text) (fact text)
  | rule {premises premises' : List String} (conclusion : String) :
    (∀ t, t ∈ premises ↔ t ∈ premises') →
      Same (rule premises conclusion) (rule premises' conclusion)
  | clause {literals literals' : List String} :
    (∀ t, t ∈ literals ↔ t ∈ literals') → Same (clause literals) (clause literals')

theorem Same.toClause_eq_ok_iff {a b : Addition} (h : a.Same b) {c : Clause} :
    a.entry.toClause = .ok c ↔ b.entry.toClause = .ok c := by
  cases h with
  | fact text => rfl
  | rule conclusion same =>
    simp only [entry, Rule.ofList, SortedSet.ofList_eq_ofList_iff.mpr same]
  | clause same => exact KnowledgeBase.clauseOfTexts_congr same

/-- Everything that the first additions say is also said by the second ones. -/
def Within (as bs : List Addition) : Prop := ∀ a ∈ as, ∃ b ∈ bs, a.Same b

end Addition

/-- The knowledge base that additions make of the empty one. -/
def assemble (as : List Addition) : KnowledgeBase :=
  KnowledgeBase.empty.addMany (as.map Addition.entry)

theorem mem_entries_assemble {as : List Addition} {e : Entry} :
    e ∈ (assemble as).entries ↔ ∃ a ∈ as, e = a.entry.stored := by
  have hempty : ¬ e ∈ KnowledgeBase.empty.entries := List.not_mem_nil
  simp [assemble, KnowledgeBase.mem_entries_addMany, hempty]

theorem exists_toClauses_assemble_iff {as : List Addition} :
    (∃ clauses, (assemble as).toClauses = .ok clauses) ↔
      ∀ a ∈ as, ∃ c, a.entry.toClause = .ok c := by
  rw [KnowledgeBase.exists_toClauses_eq_ok_iff]
  constructor
  · intro h a ha
    obtain ⟨c, hc⟩ := h a.entry.stored (mem_entries_assemble.mpr ⟨a, ha, rfl⟩)
    exact ⟨c, Entry.toClause_stored_eq_ok_iff.mp hc⟩
  · intro h e he
    obtain ⟨a, ha, rfl⟩ := mem_entries_assemble.mp he
    obtain ⟨c, hc⟩ := h a ha
    exact ⟨c, Entry.toClause_stored_eq_ok_iff.mpr hc⟩

theorem mem_iff_of_toClauses_assemble {as : List Addition} {clauses : ClauseSet}
    (h : (assemble as).toClauses = .ok clauses) {c : Clause} :
    c ∈ clauses ↔ ∃ a ∈ as, a.entry.toClause = .ok c := by
  rw [KnowledgeBase.mem_iff_of_toClauses_eq_ok h]
  simp [mem_entries_assemble, Entry.toClause_stored_eq_ok_iff]

theorem readable_of_within {as bs : List Addition} (h : Addition.Within as bs)
    (readable : ∃ clauses, (assemble bs).toClauses = .ok clauses) :
    ∃ clauses, (assemble as).toClauses = .ok clauses := by
  apply exists_toClauses_assemble_iff.mpr
  intro a ha
  obtain ⟨b, hb, same⟩ := h a ha
  obtain ⟨c, hc⟩ := exists_toClauses_assemble_iff.mp readable b hb
  exact ⟨c, same.toClause_eq_ok_iff.mpr hc⟩

theorem mem_of_within {as bs : List Addition} (h : Addition.Within as bs)
    {clauses clauses' : ClauseSet} (has : (assemble as).toClauses = .ok clauses)
    (hbs : (assemble bs).toClauses = .ok clauses') {c : Clause} (hc : c ∈ clauses) :
    c ∈ clauses' := by
  obtain ⟨a, ha, hac⟩ := (mem_iff_of_toClauses_assemble has).mp hc
  obtain ⟨b, hb, same⟩ := h a ha
  exact (mem_iff_of_toClauses_assemble hbs).mpr ⟨b, hb, same.toClause_eq_ok_iff.mp hac⟩

/-- Additions that say the same, in any order and with any repetition, lead to the same clauses or
both to a fault. -/
theorem toClauses_assemble_of_within {as bs : List Addition}
    (within : Addition.Within as bs) (within' : Addition.Within bs as) :
    (∃ fault fault', (assemble as).toClauses = .error fault ∧
      (assemble bs).toClauses = .error fault') ∨
    ∃ clauses clauses', (assemble as).toClauses = .ok clauses ∧
      (assemble bs).toClauses = .ok clauses' ∧ ∀ c, c ∈ clauses ↔ c ∈ clauses' := by
  cases has : (assemble as).toClauses with
  | error fault =>
    cases hbs : (assemble bs).toClauses with
    | error fault' => exact .inl ⟨fault, fault', rfl, rfl⟩
    | ok clauses' =>
      obtain ⟨clauses, h⟩ := readable_of_within within ⟨clauses', hbs⟩
      rw [has] at h
      cases h
  | ok clauses =>
    obtain ⟨clauses', hbs⟩ := readable_of_within within' ⟨clauses, has⟩
    refine .inr ⟨clauses, clauses', rfl, hbs, ?_⟩
    intro c
    exact ⟨mem_of_within within has hbs, mem_of_within within' hbs has⟩

-- The faults themselves need not be the same.
example : (assemble [.fact "P(x)", .fact "Q("]).toClauses ≠
    (assemble [.fact "Q(", .fact "P(x)"]).toClauses := by decide +kernel

section Example

def winter : List Addition :=
  [.fact "Rain", .rule ["Wet(x)", "Cold"] "Icy(x)", .clause ["Dark(x)", "~Winter"]]

/-- The same in another order; the clause is stored twice. -/
def winterReordered : List Addition :=
  [.clause ["~Winter", "Dark(x)", "~Winter"], .rule ["Cold", "Wet(x)", "Cold"] "Icy(x)",
    .clause ["Dark(x)", "~Winter"], .fact "Rain", .fact "Rain"]

def winterClauses : ClauseSet := .ofList
  [.unit ⟨true, .const "Rain"⟩,
    .ofList [⟨false, .compound "Wet" [.var "x"]⟩, ⟨false, .const "Cold"⟩,
      ⟨true, .compound "Icy" [.var "x"]⟩],
    .ofList [⟨true, .compound "Dark" [.var "x"]⟩, ⟨false, .const "Winter"⟩]]

theorem winter_within : Addition.Within winter winterReordered := by
  simp only [Addition.Within, winter, List.forall_mem_cons]
  refine ⟨?_, ?_, ?_, by simp⟩
  · exact ⟨.fact "Rain", by simp [winterReordered], .fact _⟩
  · exact ⟨.rule ["Cold", "Wet(x)", "Cold"] "Icy(x)", by simp [winterReordered],
      .rule _ (by grind)⟩
  · exact ⟨.clause ["Dark(x)", "~Winter"], by simp [winterReordered], .clause fun _ => Iff.rfl⟩

theorem winterReordered_within : Addition.Within winterReordered winter := by
  simp only [Addition.Within, winterReordered, List.forall_mem_cons]
  have rain : ∃ a ∈ winter, (Addition.fact "Rain").Same a :=
    ⟨.fact "Rain", by simp [winter], .fact _⟩
  refine ⟨?_, ?_, ?_, rain, rain, by simp⟩
  · exact ⟨.clause ["Dark(x)", "~Winter"], by simp [winter], .clause (by grind)⟩
  · exact ⟨.rule ["Wet(x)", "Cold"] "Icy(x)", by simp [winter], .rule _ (by grind)⟩
  · exact ⟨.clause ["Dark(x)", "~Winter"], by simp [winter], .clause fun _ => Iff.rfl⟩

theorem toClauses_assemble_of_within_winter :
    Addition.Within winter winterReordered ∧ Addition.Within winterReordered winter ∧
    (assemble winter).toClauses = .ok winterClauses ∧
    ∃ clauses, (assemble winterReordered).toClauses = .ok clauses ∧
      ∀ c, c ∈ winterClauses ↔ c ∈ clauses := by
  have converted : (assemble winter).toClauses = .ok winterClauses :=
    eq_ok_of_toOption_eq_some (by decide +kernel)
  refine ⟨winter_within, winterReordered_within, converted, ?_⟩
  obtain ⟨fault, -, hfault, -⟩ | ⟨clauses, clauses', has, hbs, same⟩ :=
    toClauses_assemble_of_within winter_within winterReordered_within
  · rw [converted] at hfault
    cases hfault
  · rw [converted] at has
    cases has
    exact ⟨clauses', hbs, same⟩

end Example

end Clausal
