import Mathlib.Data.List.Forall2
import Clausal.KnowledgeBase
import Clausal.Proofs.Structures

/-!
# The clauses of a knowledge base mean what it says

A text says in a structure what the literal says that is read from it. The clauses of a knowledge
base hold under the same assignments in the same structures as its texts.
-/

namespace Clausal

set_option autoImplicit false

universe u v

section Readings

variable {α β : Type u} {ε : Type v}

theorem exists_of_bind_eq_ok {x : Except ε α} {f : α → Except ε β} {b : β}
    (h : x >>= f = .ok b) : ∃ a, x = .ok a ∧ f a = .ok b := by
  cases x with
  | error e => cases h
  | ok a => exact ⟨a, rfl, h⟩

theorem eq_ok_of_toOption_eq_some {x : Except ε α} {a : α} (h : x.toOption = some a) :
    x = .ok a := by
  cases x with
  | error e => cases h
  | ok b => exact congrArg Except.ok (Option.some.inj h)

theorem forall₂_of_mapM_eq_ok {f : α → Except ε β} {as : List α} {bs : List β}
    (h : as.mapM f = .ok bs) : List.Forall₂ (fun a b => f a = .ok b) as bs := by
  induction as generalizing bs with
  | nil =>
    cases h
    exact .nil
  | cons a as ih =>
    rw [List.mapM_cons] at h
    obtain ⟨b, hb, h⟩ := exists_of_bind_eq_ok h
    obtain ⟨rest, hrest, h⟩ := exists_of_bind_eq_ok h
    cases h
    exact .cons hb (ih hrest)

variable {R : α → β → Prop} {P : α → Prop} {Q : β → Prop} {as : List α} {bs : List β}

theorem forall_mem_iff_of_forall₂ (h : List.Forall₂ R as bs) (hiff : ∀ a b, R a b → (P a ↔ Q b)) :
    (∀ a ∈ as, P a) ↔ ∀ b ∈ bs, Q b := by
  induction h with
  | nil => simp
  | cons hab _ ih => rw [List.forall_mem_cons, List.forall_mem_cons, hiff _ _ hab, ih]

theorem exists_mem_iff_of_forall₂ (h : List.Forall₂ R as bs) (hiff : ∀ a b, R a b → (P a ↔ Q b)) :
    (∃ a ∈ as, P a) ↔ ∃ b ∈ bs, Q b := by
  induction h with
  | nil => simp
  | cons hab _ ih => rw [List.exists_mem_cons_iff, List.exists_mem_cons_iff, hiff _ _ hab, ih]

theorem exists_of_mem_of_forall₂ (h : List.Forall₂ R as bs) {a : α} (ha : a ∈ as) :
    ∃ b, R a b := by
  induction h with
  | nil => cases ha
  | cons hab _ ih =>
    rcases List.mem_cons.mp ha with rfl | ha
    · exact ⟨_, hab⟩
    · exact ih ha

end Readings

namespace KnowledgeBase

variable {k : KnowledgeBase} {clauses : ClauseSet}

/-- All texts of a knowledge base in the order in which they are read. -/
def texts (k : KnowledgeBase) : List String :=
  k.facts.toList ++ k.rules.toList.flatMap (fun r => r.premises.toList ++ [r.conclusion]) ++
    k.clauses.toList.flatten

/-- The clauses of each kind are read from the entries of that kind one by one. -/
theorem exists_of_toClauses_eq_ok (h : k.toClauses = .ok clauses) :
    ∃ facts rules others, clauses = .ofList (facts ++ rules ++ others) ∧
      List.Forall₂ (fun text c => clauseOfFact text = .ok c) k.facts.toList facts ∧
      List.Forall₂ (fun r c => Rule.toClause r = .ok c) k.rules.toList rules ∧
      List.Forall₂ (fun texts c => clauseOfTexts texts = .ok c) k.clauses.toList others := by
  obtain ⟨cs, hcs, h⟩ := exists_of_bind_eq_ok h
  cases h
  obtain ⟨facts, hfacts, hcs⟩ := exists_of_bind_eq_ok hcs
  obtain ⟨rules, hrules, hcs⟩ := exists_of_bind_eq_ok hcs
  obtain ⟨others, hothers, hcs⟩ := exists_of_bind_eq_ok hcs
  cases hcs
  exact ⟨facts, rules, others, rfl, forall₂_of_mapM_eq_ok hfacts, forall₂_of_mapM_eq_ok hrules,
    forall₂_of_mapM_eq_ok hothers⟩

theorem parse_of_clauseOfFact_eq_ok {text : String} {c : Clause} (h : clauseOfFact text = .ok c) :
    ∃ l, Literal.parse text = .ok l ∧ c = .unit l := by
  obtain ⟨l, hl, h⟩ := exists_of_bind_eq_ok h
  cases h
  refine ⟨l, ?_, rfl⟩
  unfold Literal.parseGround at hl
  split at hl
  · cases hl
  · rename_i m hm
    split at hl
    · exact hm.trans hl
    · cases hl

theorem parse_of_clauseOfTexts_eq_ok {texts : List String} {c : Clause}
    (h : clauseOfTexts texts = .ok c) :
    ∃ ls, List.Forall₂ (fun text l => Literal.parse text = .ok l) texts ls ∧ c = .ofList ls := by
  obtain ⟨ls, hls, h⟩ := exists_of_bind_eq_ok h
  cases h
  exact ⟨ls, forall₂_of_mapM_eq_ok hls, rfl⟩

end KnowledgeBase

theorem Rule.parse_of_toClause_eq_ok {r : Rule} {c : Clause} (h : r.toClause = .ok c) :
    ∃ ls l, List.Forall₂ (fun text l => Literal.parse text = .ok l) r.premises.toList ls ∧
      Literal.parse r.conclusion = .ok l ∧ c = .ofList (ls.map Literal.complement ++ [l]) := by
  obtain ⟨ls, hls, h⟩ := exists_of_bind_eq_ok h
  obtain ⟨l, hl, h⟩ := exists_of_bind_eq_ok h
  cases h
  exact ⟨ls, l, forall₂_of_mapM_eq_ok hls, hl, rfl⟩

namespace Structure

variable (M : Structure.{u})

def Asserts (a : M.Assignment) (text : String) : Prop :=
  ∃ l, Literal.parse text = .ok l ∧ M.Satisfies a l

structure Models (a : M.Assignment) (k : KnowledgeBase) : Prop where
  facts : ∀ text ∈ k.facts, M.Asserts a text
  rules : ∀ r ∈ k.rules, (∀ text ∈ r.premises, M.Asserts a text) → M.Asserts a r.conclusion
  clauses : ∀ texts ∈ k.clauses, ∃ text ∈ texts, M.Asserts a text

variable {M} {a : M.Assignment}

theorem asserts_iff {text : String} {l : Literal} (h : Literal.parse text = .ok l) :
    M.Asserts a text ↔ M.Satisfies a l := by
  constructor
  · rintro ⟨m, hm, hsat⟩
    cases h.symm.trans hm
    exact hsat
  · intro hsat
    exact ⟨l, h, hsat⟩

theorem holds_unit {l : Literal} : M.Holds a (.unit l) ↔ M.Satisfies a l := by
  simp [Holds]

theorem holds_ofList {ls : List Literal} :
    M.Holds a (.ofList ls) ↔ ∃ l ∈ ls, M.Satisfies a l := by
  simp [Holds]

/-- A clause of denied premises and a conclusion is an implication. -/
theorem holds_implication {ls : List Literal} {l : Literal} :
    M.Holds a (.ofList (ls.map Literal.complement ++ [l])) ↔
      ((∀ m ∈ ls, M.Satisfies a m) → M.Satisfies a l) := by
  rw [holds_ofList]
  constructor
  · rintro ⟨m, hm, hsat⟩ hpremises
    rcases List.mem_append.mp hm with hm | hm
    · obtain ⟨premise, hpremise, rfl⟩ := List.mem_map.mp hm
      exact absurd (hpremises premise hpremise) (satisfies_complement.mp hsat)
    · exact List.mem_singleton.mp hm ▸ hsat
  · intro himp
    by_cases hpremises : ∀ m ∈ ls, M.Satisfies a m
    · exact ⟨l, by simp, himp hpremises⟩
    · simp only [not_forall] at hpremises
      obtain ⟨m, hm, hsat⟩ := hpremises
      refine ⟨m.complement, List.mem_append_left _ (List.mem_map_of_mem hm), ?_⟩
      exact satisfies_complement.mpr hsat

theorem asserts_iff_of_clauseOfFact {text : String} {c : Clause}
    (h : KnowledgeBase.clauseOfFact text = .ok c) : M.Asserts a text ↔ M.Holds a c := by
  obtain ⟨l, hl, rfl⟩ := KnowledgeBase.parse_of_clauseOfFact_eq_ok h
  rw [asserts_iff hl, holds_unit]

theorem asserts_iff_of_toClause {r : Rule} {c : Clause} (h : r.toClause = .ok c) :
    ((∀ text ∈ r.premises, M.Asserts a text) → M.Asserts a r.conclusion) ↔ M.Holds a c := by
  obtain ⟨ls, l, hls, hl, rfl⟩ := Rule.parse_of_toClause_eq_ok h
  rw [holds_implication, asserts_iff hl]
  exact imp_congr_left (forall_mem_iff_of_forall₂ hls fun _ _ => asserts_iff)

theorem asserts_iff_of_clauseOfTexts {texts : List String} {c : Clause}
    (h : KnowledgeBase.clauseOfTexts texts = .ok c) :
    (∃ text ∈ texts, M.Asserts a text) ↔ M.Holds a c := by
  obtain ⟨ls, hls, rfl⟩ := KnowledgeBase.parse_of_clauseOfTexts_eq_ok h
  rw [holds_ofList]
  exact exists_mem_iff_of_forall₂ hls fun _ _ => asserts_iff

theorem models_iff {k : KnowledgeBase} {clauses : ClauseSet} (h : k.toClauses = .ok clauses) :
    M.Models a k ↔ ∀ c ∈ clauses, M.Holds a c := by
  obtain ⟨facts, rules, others, rfl, hfacts, hrules, hothers⟩ :=
    KnowledgeBase.exists_of_toClauses_eq_ok h
  have hf := forall_mem_iff_of_forall₂ hfacts fun _ _ => asserts_iff_of_clauseOfFact (a := a)
  have hr := forall_mem_iff_of_forall₂ hrules fun _ _ => asserts_iff_of_toClause (a := a)
  have ho := forall_mem_iff_of_forall₂ hothers fun _ _ => asserts_iff_of_clauseOfTexts (a := a)
  simp only [Roster.mem_ofList, List.forall_mem_append, ← hf, ← hr, ← ho]
  constructor
  · rintro ⟨hfacts, hrules, hclauses⟩
    exact ⟨⟨hfacts, hrules⟩, hclauses⟩
  · rintro ⟨⟨hfacts, hrules⟩, hclauses⟩
    exact ⟨hfacts, hrules, hclauses⟩

end Structure

/-- All texts of a knowledge base that is turned into clauses can be read. -/
theorem KnowledgeBase.exists_parse_of_mem_texts {k : KnowledgeBase} {clauses : ClauseSet}
    (h : k.toClauses = .ok clauses) {text : String} (htext : text ∈ k.texts) :
    ∃ l, Literal.parse text = .ok l := by
  obtain ⟨facts, rules, others, -, hfacts, hrules, hothers⟩ := exists_of_toClauses_eq_ok h
  simp only [texts, List.mem_append, List.mem_flatMap, List.mem_flatten] at htext
  rcases htext with (hmem | ⟨r, hr, hmem⟩) | ⟨ts, hts, hmem⟩
  · obtain ⟨c, hc⟩ := exists_of_mem_of_forall₂ hfacts hmem
    obtain ⟨l, hl, -⟩ := parse_of_clauseOfFact_eq_ok hc
    exact ⟨l, hl⟩
  · obtain ⟨c, hc⟩ := exists_of_mem_of_forall₂ hrules hr
    obtain ⟨ls, l, hls, hl, -⟩ := Rule.parse_of_toClause_eq_ok hc
    rcases hmem with hmem | hmem
    · exact exists_of_mem_of_forall₂ hls hmem
    · exact ⟨l, List.mem_singleton.mp hmem ▸ hl⟩
  · obtain ⟨c, hc⟩ := exists_of_mem_of_forall₂ hothers hts
    obtain ⟨ls, hls, -⟩ := parse_of_clauseOfTexts_eq_ok hc
    exact exists_of_mem_of_forall₂ hls hmem

/-- If a knowledge base is turned into clauses, all its texts can be read, and in every structure
the clauses hold under the assignments under which it is so what the knowledge base says. In
particular a clause without literals is never so, and a rule without premises asserts its
conclusion. -/
theorem toClauses_preserves_meaning {k : KnowledgeBase} {clauses : ClauseSet}
    (converted : k.toClauses = .ok clauses) :
    (∀ text ∈ k.texts, ∃ l, Literal.parse text = .ok l) ∧
    ∀ (M : Structure.{u}) (a : M.Assignment),
      ((∀ c ∈ clauses, M.Holds a c) ↔ M.Models a k) ∧
      ([] ∈ k.clauses → ¬ ∀ c ∈ clauses, M.Holds a c) ∧
      ∀ r ∈ k.rules, r.premises = .empty → (∀ c ∈ clauses, M.Holds a c) →
        M.Asserts a r.conclusion := by
  refine ⟨fun text => KnowledgeBase.exists_parse_of_mem_texts converted, fun M a => ?_⟩
  have hiff := Structure.models_iff (M := M) (a := a) converted
  refine ⟨hiff.symm, ?_, ?_⟩
  · intro hempty hholds
    obtain ⟨text, htext, -⟩ := (hiff.mpr hholds).clauses [] hempty
    cases htext
  · intro r hr hpremises hholds
    apply (hiff.mpr hholds).rules r hr
    intro text htext
    rw [hpremises] at htext
    exact absurd htext (SortedSet.not_mem_empty text)

section Example

/-- Ann is not asleep, whoever is not asleep at night is awake, it is night, and Ann is awake,
which is said twice. -/
def nightWatch : KnowledgeBase := KnowledgeBase.empty.addMany
  [.fact "¬Asleep(Ann)", .rule (.ofList ["Night", "~Asleep(x)"] "Awake(x)"),
    .rule (.ofList [] "Night"), .clause ["Awake(Ann)", " Awake( Ann )"]]

def nightWatchClauses : ClauseSet := .ofList
  [.unit ⟨false, .compound "Asleep" [.const "Ann"]⟩,
    .ofList [⟨false, .const "Night"⟩, ⟨true, .compound "Asleep" [.var "x"]⟩,
      ⟨true, .compound "Awake" [.var "x"]⟩],
    .unit ⟨true, .const "Night"⟩, .unit ⟨true, .compound "Awake" [.const "Ann"]⟩]

def sleepless : Structure where
  Carrier := Bool
  nonempty := ⟨true⟩
  constant _ := true
  function f _ := f ≠ "Asleep"
  isTrue b := b = true

theorem toClauses_preserves_meaning_nightWatch :
    nightWatch.toClauses = .ok nightWatchClauses ∧
    (∀ text ∈ nightWatch.texts, ∃ l, Literal.parse text = .ok l) ∧
    (∀ c ∈ nightWatchClauses, sleepless.Holds (fun _ => false) c) ∧
    sleepless.Models (fun _ => false) nightWatch := by
  have converted : nightWatch.toClauses = .ok nightWatchClauses :=
    eq_ok_of_toOption_eq_some (by decide +kernel)
  have holds : ∀ c ∈ nightWatchClauses, sleepless.Holds (fun _ => false) c := by
    intro c hc
    simp only [nightWatchClauses, Roster.mem_ofList, List.mem_cons, List.not_mem_nil,
      or_false] at hc
    rcases hc with rfl | rfl | rfl | rfl
    · exact ⟨_, Clause.mem_unit.mpr rfl, iff_of_false Bool.false_ne_true Bool.false_ne_true⟩
    · exact ⟨⟨true, .compound "Awake" [.var "x"]⟩, by simp, iff_of_true rfl rfl⟩
    · exact ⟨_, Clause.mem_unit.mpr rfl, iff_of_true rfl rfl⟩
    · exact ⟨_, Clause.mem_unit.mpr rfl, iff_of_true rfl rfl⟩
  obtain ⟨readable, meaning⟩ := toClauses_preserves_meaning converted
  exact ⟨converted, readable, holds, (meaning sleepless fun _ => false).1.mp holds⟩

end Example

end Clausal
