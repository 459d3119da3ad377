import Clausal.Proofs.Assembly

/-!
# The first fault of a knowledge base

A knowledge base is read text by text: facts, then rules with their premises before their
conclusions, then clauses. The first text that is at fault is the one reported.
-/

namespace Clausal

set_option autoImplicit false

universe u v

section Faults

variable {α β : Type u} {ε : Type v}

def fault? : Except ε α → Option ε
  | .error e => some e
  | .ok _ => none

theorem fault?_eq_some_iff {x : Except ε α} {e : ε} : fault? x = some e ↔ x = .error e := by
  cases x <;> simp [fault?]

/-- Of two computations made one after the other the first fault counts, if whether the second one
fails does not depend on the value of the first. -/
theorem fault?_bind {x : Except ε α} {f : α → Except ε β} {fault : Option ε}
    (h : ∀ a, fault? (f a) = fault) : fault? (x >>= f) = (fault? x).or fault := by
  cases x with
  | error e => rfl
  | ok a => exact h a

theorem fault?_bind_pure (x : Except ε α) (f : α → β) :
    fault? (x >>= fun a => pure (f a)) = fault? x := by
  cases x <;> rfl

theorem fault?_mapM (f : α → Except ε β) (as : List α) :
    fault? (as.mapM f) = as.findSome? fun a => fault? (f a) := by
  induction as with
  | nil => rfl
  | cons a as ih =>
    rw [List.mapM_cons, List.findSome?_cons, ← ih]
    have hrest (b : β) : fault? (as.mapM f >>= fun bs => pure (b :: bs)) = fault? (as.mapM f) :=
      fault?_bind_pure _ _
    rw [fault?_bind hrest]
    cases fault? (f a) <;> rfl

theorem findSome?_flatMap {γ : Type v} (f : β → Option γ) (g : α → List β) (as : List α) :
    (as.flatMap g).findSome? f = as.findSome? fun a => (g a).findSome? f := by
  induction as with
  | nil => rfl
  | cons a as ih =>
    rw [List.flatMap_cons, List.findSome?_append, List.findSome?_cons, ih]
    cases (g a).findSome? f <;> rfl

end Faults

theorem eraseDups_of_nodup {α : Type u} [BEq α] [LawfulBEq α] {as : List α} (h : as.Nodup) :
    as.eraseDups = as := by
  induction as with
  | nil => rfl
  | cons a as ih =>
    obtain ⟨ha, has⟩ := List.nodup_cons.mp h
    have hkeep : as.filter (fun b => !b == a) = as := by
      apply List.filter_eq_self.mpr
      intro b hb
      have hne : b ≠ a := fun heq => ha (heq ▸ hb)
      simpa using hne
    rw [List.eraseDups_cons, hkeep, ih has]

theorem Roster.toList_insertMany {α : Type u} [DecidableEq α] [BEq α] [LawfulBEq α]
    (r : Roster α) (as : List α) :
    (r.insertMany as).toList = (r.toList ++ as).eraseDups := by
  induction as generalizing r with
  | nil =>
    rw [List.append_nil, eraseDups_of_nodup r.nodup]
    rfl
  | cons a as ih =>
    have step : r.insertMany (a :: as) = (r.insert a).insertMany as := rfl
    rw [step, ih, toList_insert]
    split
    · -- a member is inserted again, and on the right this repetition is erased
      rename_i ha
      have hdrop : (a :: as).removeAll r.toList = as.removeAll r.toList := by
        rw [List.cons_removeAll, List.contains_iff_mem.mpr ha]
        rfl
      rw [List.eraseDups_append, List.eraseDups_append, hdrop]
    · rw [List.append_assoc, List.singleton_append]

namespace Literal

theorem parseGround_eq_ok_iff {text : String} {l : Literal} :
    parseGround text = .ok l ↔ parse text = .ok l ∧ l.isGround = true := by
  unfold parseGround
  cases parse text with
  | error fault => simp
  | ok m => grind

theorem parseGround_eq_error_iff {text : String} {fault : Text.Fault} :
    parseGround text = .error fault ↔ parse text = .error fault ∨
      (fault = .notGround text ∧ ∃ l, parse text = .ok l ∧ l.isGround = false) := by
  unfold parseGround
  cases parse text with
  | error fault' => simp
  | ok m => grind

end Literal

def Unreadable (text : String) : Prop := ∃ fault, Literal.parse text = .error fault

/-- A text of a knowledge base. A fact may not have variables. -/
inductive Passage where
  | fact (text : String)
  | literal (text : String)

namespace Passage

inductive Wrong : Passage → Text.Fault → Prop where
  | fact {text : String} {fault : Text.Fault} :
    Literal.parse text = .error fault → Wrong (fact text) fault
  | notGround {text : String} {l : Literal} :
    Literal.parse text = .ok l → l.isGround = false → Wrong (fact text) (.notGround text)
  | literal {text : String} {fault : Text.Fault} :
    Literal.parse text = .error fault → Wrong (literal text) fault

def fault? : Passage → Option Text.Fault
  | fact text => Clausal.fault? (Literal.parseGround text)
  | literal text => Clausal.fault? (Literal.parse text)

theorem fault?_eq_some_iff {p : Passage} {fault : Text.Fault} :
    p.fault? = some fault ↔ p.Wrong fault := by
  constructor
  · intro h
    cases p with
    | fact text =>
      rcases Literal.parseGround_eq_error_iff.mp (Clausal.fault?_eq_some_iff.mp h) with
        hparse | ⟨rfl, l, hparse, hground⟩
      · exact .fact hparse
      · exact .notGround hparse hground
    | literal text => exact .literal (Clausal.fault?_eq_some_iff.mp h)
  · intro h
    cases h with
    | fact hparse =>
      exact Clausal.fault?_eq_some_iff.mpr
        (Literal.parseGround_eq_error_iff.mpr (Or.inl hparse))
    | notGround hparse hground =>
      exact Clausal.fault?_eq_some_iff.mpr
        (Literal.parseGround_eq_error_iff.mpr (Or.inr ⟨rfl, _, hparse, hground⟩))
    | literal hparse => exact Clausal.fault?_eq_some_iff.mpr hparse

theorem fault?_eq_none_iff {p : Passage} : p.fault? = none ↔ ∀ fault, ¬ p.Wrong fault := by
  simp only [← fault?_eq_some_iff, Option.eq_none_iff_forall_ne_some, ne_eq]

end Passage

namespace Entry

/-- The texts of an entry in the order in which they are read. -/
def passages : Entry → List Passage
  | fact text => [.fact text]
  | rule r => (r.premises.toList ++ [r.conclusion]).map .literal
  | clause literals => literals.map .literal

def fact? : Entry → Option String
  | fact text => some text
  | _ => none

def rule? : Entry → Option Rule
  | rule r => some r
  | _ => none

def stored? : Entry → Option (List String)
  | clause literals => some (KnowledgeBase.stored literals)
  | _ => none

/-- The clause that an entry states, literal by literal. -/
inductive States : Entry → Clause → Prop where
  | fact {text : String} {l : Literal} :
    Literal.parse text = .ok l → l.isGround = true → States (fact text) (.unit l)
  | rule {r : Rule} {ls : List Literal} {l : Literal} :
    List.Forall₂ (fun text l => Literal.parse text = .ok l) r.premises.toList ls →
    Literal.parse r.conclusion = .ok l →
    States (rule r) (.ofList (ls.map Literal.complement ++ [l]))
  | clause {texts : List String} {ls : List Literal} :
    List.Forall₂ (fun text l => Literal.parse text = .ok l) texts ls →
    States (clause texts) (.ofList ls)

theorem states_of_toClause_eq_ok {e : Entry} {c : Clause} (h : e.toClause = .ok c) :
    e.States c := by
  cases e with
  | fact text =>
    obtain ⟨l, hl, h⟩ := exists_of_bind_eq_ok h
    cases h
    obtain ⟨hparse, hground⟩ := Literal.parseGround_eq_ok_iff.mp hl
    exact .fact hparse hground
  | rule r =>
    obtain ⟨ls, l, hls, hl, rfl⟩ := Rule.parse_of_toClause_eq_ok h
    exact .rule hls hl
  | clause texts =>
    obtain ⟨ls, hls, rfl⟩ := KnowledgeBase.parse_of_clauseOfTexts_eq_ok h
    exact .clause hls

theorem fault?_toClause (e : Entry) : fault? e.toClause = e.passages.findSome? Passage.fault? := by
  cases e with
  | fact text =>
    have hread : fault? (Entry.fact text).toClause = fault? (Literal.parseGround text) :=
      fault?_bind_pure _ _
    rw [hread, passages, List.findSome?_singleton]
    rfl
  | rule r =>
    have hread : fault? (Entry.rule r).toClause =
        (fault? (r.premises.toList.mapM Literal.parse)).or (fault? (Literal.parse r.conclusion)) :=
      fault?_bind fun _ => fault?_bind_pure _ _
    rw [hread, fault?_mapM, passages, List.map_append, List.findSome?_append, List.findSome?_map,
      List.map_singleton, List.findSome?_singleton]
    rfl
  | clause texts =>
    have hread : fault? (Entry.clause texts).toClause = fault? (texts.mapM Literal.parse) :=
      fault?_bind_pure _ _
    rw [hread, fault?_mapM, passages, List.findSome?_map]
    rfl

end Entry

namespace KnowledgeBase

variable {k : KnowledgeBase}

def passages (k : KnowledgeBase) : List Passage := k.entries.flatMap Entry.passages

theorem mem_passages_iff {p : Passage} :
    p ∈ k.passages ↔ (∃ text ∈ k.facts, p = .fact text) ∨
      (∃ r ∈ k.rules, ∃ text, (text ∈ r.premises ∨ text = r.conclusion) ∧ p = .literal text) ∨
      ∃ texts ∈ k.clauses, ∃ text ∈ texts, p = .literal text := by
  simp [passages, entries, Entry.passages, Roster.mem_toList, SortedSet.mem_toList, eq_comm]

theorem fault?_toClauses (k : KnowledgeBase) :
    fault? k.toClauses = k.passages.findSome? Passage.fault? := by
  have hread : fault? k.toClauses = fault? k.toClauseList := fault?_bind_pure _ _
  rw [hread, toClauseList_eq_mapM, fault?_mapM, passages, findSome?_flatMap]
  simp only [Entry.fault?_toClause]

theorem toClauses_eq_error_iff {fault : Text.Fault} :
    k.toClauses = .error fault ↔ ∃ earlier p later, k.passages = earlier ++ p :: later ∧
      p.Wrong fault ∧ ∀ q ∈ earlier, ∀ fault', ¬ q.Wrong fault' := by
  rw [← fault?_eq_some_iff, fault?_toClauses, List.findSome?_eq_some_iff]
  simp only [Passage.fault?_eq_some_iff, Passage.fault?_eq_none_iff]

/-- Some fact cannot be read or has variables, or some other text cannot be read. -/
inductive Malformed (k : KnowledgeBase) : Prop where
  | fact {text : String} : text ∈ k.facts → Unreadable text → Malformed k
  | notGround {text : String} {l : Literal} : text ∈ k.facts → Literal.parse text = .ok l →
    l.isGround = false → Malformed k
  | premise {r : Rule} {text : String} : r ∈ k.rules → text ∈ r.premises → Unreadable text →
    Malformed k
  | conclusion {r : Rule} : r ∈ k.rules → Unreadable r.conclusion → Malformed k
  | literal {texts : List String} {text : String} : texts ∈ k.clauses → text ∈ texts →
    Unreadable text → Malformed k

theorem malformed_iff : k.Malformed ↔ ∃ p ∈ k.passages, ∃ fault, p.Wrong fault := by
  constructor
  · intro h
    cases h with
    | fact hmem hread =>
      obtain ⟨fault, hparse⟩ := hread
      exact ⟨_, mem_passages_iff.mpr (.inl ⟨_, hmem, rfl⟩), fault, .fact hparse⟩
    | notGround hmem hparse hground =>
      exact ⟨_, mem_passages_iff.mpr (.inl ⟨_, hmem, rfl⟩), _, .notGround hparse hground⟩
    | premise hr hmem hread =>
      obtain ⟨fault, hparse⟩ := hread
      exact ⟨_, mem_passages_iff.mpr (.inr (.inl ⟨_, hr, _, .inl hmem, rfl⟩)), fault,
        .literal hparse⟩
    | conclusion hr hread =>
      obtain ⟨fault, hparse⟩ := hread
      exact ⟨_, mem_passages_iff.mpr (.inr (.inl ⟨_, hr, _, .inr rfl, rfl⟩)), fault,
        .literal hparse⟩
    | literal htexts hmem hread =>
      obtain ⟨fault, hparse⟩ := hread
      exact ⟨_, mem_passages_iff.mpr (.inr (.inr ⟨_, htexts, _, hmem, rfl⟩)), fault,
        .literal hparse⟩
  · intro ⟨p, hp, fault, hwrong⟩
    rcases mem_passages_iff.mp hp with ⟨text, hmem, rfl⟩ |
      ⟨r, hr, text, hmem | rfl, rfl⟩ | ⟨texts, htexts, text, hmem, rfl⟩
    · cases hwrong with
      | fact hparse => exact .fact hmem ⟨fault, hparse⟩
      | notGround hparse hground => exact .notGround hmem hparse hground
    · cases hwrong with
      | literal hparse => exact .premise hr hmem ⟨fault, hparse⟩
    · cases hwrong with
      | literal hparse => exact .conclusion hr ⟨fault, hparse⟩
    · cases hwrong with
      | literal hparse => exact .literal htexts hmem ⟨fault, hparse⟩

theorem exists_toClauses_eq_error_iff : (∃ fault, k.toClauses = .error fault) ↔ k.Malformed := by
  simp only [← fault?_eq_some_iff, fault?_toClauses, malformed_iff, ← Passage.fault?_eq_some_iff,
    ← Option.isSome_iff_exists]
  exact List.findSome?_isSome_iff

theorem states_of_toClauses_eq_ok {clauses : ClauseSet} (h : k.toClauses = .ok clauses) :
    ∃ cs, List.Forall₂ Entry.States k.entries cs ∧ clauses.toList = cs.eraseDups := by
  obtain ⟨cs, hcs, rfl⟩ := toClauses_eq_ok_iff.mp h
  refine ⟨cs, ?_, Roster.toList_insertMany .empty cs⟩
  exact (forall₂_of_mapM_eq_ok hcs).imp fun _ _ => Entry.states_of_toClause_eq_ok

theorem addMany_eq (k : KnowledgeBase) (es : List Entry) :
    k.addMany es = ⟨k.facts.insertMany (es.filterMap Entry.fact?),
      k.rules.insertMany (es.filterMap Entry.rule?),
      k.clauses.insertMany (es.filterMap Entry.stored?)⟩ := by
  induction es generalizing k with
  | nil => rfl
  | cons e es ih =>
    have step : k.addMany (e :: es) = (k.add e).addMany es := rfl
    rw [step, ih]
    cases e <;> rfl

end KnowledgeBase

theorem pairwise_premises (r : Rule) :
    r.premises.toList.Pairwise fun s t =>
      List.Lex (fun a b : Char => a.toNat < b.toNat) s.toList t.toList := by
  apply r.premises.increasing.imp
  intro s t h
  exact compareOfLessAndEq_eq_lt.mp h

/-- Turning a knowledge base into clauses fails exactly if one of its texts is bad, with the fault
of the first such text. The texts come in the order in which entries of a kind were first added,
premises in the order of their code points. Otherwise the clauses are those of the entries, each
where it is first stated. -/
theorem toClauses_reports_first_fault (k : KnowledgeBase) :
    ((∃ fault, k.toClauses = .error fault) ↔ k.Malformed) ∧
    (∀ fault, k.toClauses = .error fault ↔
      ∃ earlier p later, k.passages = earlier ++ p :: later ∧ p.Wrong fault ∧
        ∀ q ∈ earlier, ∀ fault', ¬ q.Wrong fault') ∧
    (∀ es, k = KnowledgeBase.empty.addMany es →
      k.facts.toList = (es.filterMap Entry.fact?).eraseDups ∧
      k.rules.toList = (es.filterMap Entry.rule?).eraseDups ∧
      k.clauses.toList = (es.filterMap Entry.stored?).eraseDups) ∧
    (∀ r ∈ k.rules, r.premises.toList.Pairwise fun s t =>
      List.Lex (fun a b : Char => a.toNat < b.toNat) s.toList t.toList) ∧
    ∀ clauses, k.toClauses = .ok clauses →
      ∃ cs, List.Forall₂ Entry.States k.entries cs ∧ clauses.toList = cs.eraseDups := by
  refine ⟨KnowledgeBase.exists_toClauses_eq_error_iff,
    fun _ => KnowledgeBase.toClauses_eq_error_iff, ?_, fun r _ => pairwise_premises r,
    fun _ => KnowledgeBase.states_of_toClauses_eq_ok⟩
  intro es h
  rw [h, KnowledgeBase.addMany_eq]
  exact ⟨Roster.toList_insertMany .empty _, Roster.toList_insertMany .empty _,
    Roster.toList_insertMany .empty _⟩

section Example

/-- Four texts are bad. The clause was added first, and the premise about the ruler is written in
front of the one that is reported. -/
def draft : KnowledgeBase :=
  KnowledgeBase.empty.addMany [.clause ["Hates(x"],
    .rule (.ofList ["Ruler(y", "Man(x", "Loyal(x, y)"] ""), .fact "Man(Marcus)"]

theorem toClauses_reports_first_fault_draft :
    draft.Malformed ∧ draft.toClauses = .error (.unbalanced "Man(x") ∧
      draft.facts.toList = ["Man(Marcus)"] := by
  have reported : draft.toClauses = .error (.unbalanced "Man(x") :=
    fault?_eq_some_iff.mp (by decide +kernel)
  have ordered := toClauses_reports_first_fault draft
  exact ⟨ordered.1.mp ⟨_, reported⟩, reported, (ordered.2.2.1 _ rfl).1⟩

end Example

end Clausal
