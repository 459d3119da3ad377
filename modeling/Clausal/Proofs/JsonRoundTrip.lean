import Mathlib.Control.Basic
import Mathlib.Data.Option.Basic
import Clausal.Json.Answer
import Clausal.Json.Knowledge
import Clausal.Json.Limits
import Clausal.Proofs.Terms

/-!
# Reading back what was written as JSON

Every reader undoes its writer. Counts, indices and declared arities are bounded on reading, so what
holds such numbers has to fit in the bound.
-/

namespace Clausal

set_option autoImplicit false

namespace Json

section Readers

variable {α : Type} {read : Json → Option α} {write : α → Json}

theorem count?_ofNat {n : Nat} (h : n < countBound) : count? (ofNat n) = some n :=
  if_pos h

theorem mapM_map_eq_some {as : List α} (h : ∀ a ∈ as, read (write a) = some a) :
    (as.map write).mapM read = some as := by
  induction as with
  | nil => rfl
  | cons a as ih =>
    obtain ⟨ha, has⟩ := List.forall_mem_cons.mp h
    rw [List.map_cons, List.mapM_cons, ha, ih has]
    rfl

theorem list?_ofList {as : List α} (h : ∀ a ∈ as, read (write a) = some a) :
    list? read (ofList write as) = some as :=
  mapM_map_eq_some h

@[simp] theorem list?_strings (texts : List String) : list? str? (strings texts) = some texts :=
  list?_ofList fun _ _ => rfl

/-- What may be missing is read back if no value is written as `null`. -/
theorem nullable?_ofOption {o : Option α} (h : ∀ a ∈ o, read (write a) = some a)
    (hnull : ∀ a, write a ≠ null) : nullable? read (ofOption write o) = some o := by
  cases o with
  | none => rfl
  | some a =>
    have hread : nullable? read (write a) = (read (write a)).map some := by
      unfold nullable?
      split
      · exact absurd ‹_› (hnull a)
      · rfl
    rw [ofOption, hread, h a rfl]
    rfl

variable {name other : String} {v : Json} {fields : List (String × Json)} {fallback : α}

theorem field?_self : field? name (obj ((name, v) :: fields)) = some v := by
  simp [field?]

theorem field?_other (h : name ≠ other) :
    field? name (obj ((other, v) :: fields)) = field? name (obj fields) := by
  have hbeq : (name == other) = false := beq_eq_false_iff_ne.mpr h
  simp [field?, List.lookup_cons, hbeq]

@[simp] theorem required?_self : required? name read (obj ((name, v) :: fields)) = read v := by
  rw [required?, field?_self, Option.bind_some]

@[simp] theorem required?_other (h : name ≠ other) :
    required? name read (obj ((other, v) :: fields)) = required? name read (obj fields) := by
  rw [required?, field?_other h, required?]

@[simp] theorem defaulted?_self :
    defaulted? name fallback read (obj ((name, v) :: fields)) = read v := by
  rw [defaulted?, field?_self]

@[simp] theorem defaulted?_other (h : name ≠ other) :
    defaulted? name fallback read (obj ((other, v) :: fields)) =
      defaulted? name fallback read (obj fields) := by
  rw [defaulted?, field?_other h, defaulted?]

end Readers

end Json

section Limits

def Duration.Fits (d : Duration) : Prop := d.seconds < Json.countBound

structure Limits.Fits (l : Limits) : Prop where
  rounds : l.rounds < Json.countBound
  clauses : ∀ n ∈ l.clauses, n < Json.countBound
  time : ∀ d ∈ l.time, d.Fits

theorem Duration.ofParts_self (d : Duration) : ofParts d.seconds d.nanos = d := by
  obtain ⟨seconds, nanos, hlt⟩ := d
  -- less than a second of nanoseconds is carried over as nothing
  simp only [ofParts, Duration.mk.injEq]
  omega

theorem Duration.ofJson?_toJson {d : Duration} (h : d.Fits) : ofJson? d.toJson = some d := by
  have hnanos : Json.natBelow? 0x100000000 (.ofNat d.nanos) = some d.nanos :=
    if_pos (Nat.lt_trans d.nanos_lt (by decide))
  have hseconds : d.seconds < Json.countBound := h
  simp [ofJson?, toJson, hasOwnFieldsOnly, Json.count?_ofNat h, hnanos, ofParts_self, hseconds]

theorem Limits.ofJson?_toJson {l : Limits} (h : l.Fits) : ofJson? l.toJson = some l := by
  have hrounds := Json.count?_ofNat h.rounds
  have hclauses : Json.nullable? Json.count? (.ofOption .ofNat l.clauses) = some l.clauses :=
    Json.nullable?_ofOption (fun n hn => Json.count?_ofNat (h.clauses n hn)) (by simp [Json.ofNat])
  have htime : Json.nullable? Duration.ofJson? (.ofOption Duration.toJson l.time) = some l.time :=
    Json.nullable?_ofOption (fun d hd => Duration.ofJson?_toJson (h.time d hd))
      (by simp [Duration.toJson])
  simp [ofJson?, toJson, Json.isObject, Json.optional?, hrounds, hclauses, htime]

end Limits

section Knowledge

theorem Rule.ofJson?_toJson (r : Rule) : ofJson? r.toJson = some r := by
  simp [ofJson?, toJson, Json.str?, Rule.ofList]

theorem KnowledgeBase.ofJson?_toJson (k : KnowledgeBase) : ofJson? k.toJson = some k := by
  have hrules : Json.list? Rule.ofJson? (.ofList Rule.toJson k.rules.toList) =
      some k.rules.toList :=
    Json.list?_ofList fun r _ => r.ofJson?_toJson
  have hclauses : Json.list? (Json.list? Json.str?) (.ofList Json.strings k.clauses.toList) =
      some k.clauses.toList :=
    Json.list?_ofList fun texts _ => Json.list?_strings texts
  simp [ofJson?, toJson, Json.isObject, hrules, hclauses]

end Knowledge

section Logic

namespace Term

mutual

/-- Every arity that a symbol declares fits in a count. -/
def fits : Term → Bool
  | const _ => true
  | var _ => true
  | app f ts => f.arity < Json.countBound && fitIn ts

def fitIn : List Term → Bool
  | [] => true
  | t :: ts => fits t && fitIn ts

end

theorem fitIn_iff {ts : List Term} : fitIn ts = true ↔ ∀ t ∈ ts, t.fits = true := by
  induction ts with
  | nil => simp [fitIn]
  | cons t ts ih => simp [fitIn, ih]

theorem fits_app {f : Symbol} {ts : List Term} :
    (app f ts).fits = true ↔ f.arity < Json.countBound ∧ ∀ t ∈ ts, t.fits = true := by
  simp [fits, fitIn_iff]

theorem toJsonArgs_eq_map (ts : List Term) : toJsonArgs ts = ts.map toJson := by
  induction ts with
  | nil => rfl
  | cons t ts ih => simp [toJsonArgs, ih]

theorem ofJsonArgs?_eq_mapM (js : List Json) : ofJsonArgs? js = js.mapM ofJson? := by
  induction js with
  | nil => rfl
  | cons j js ih =>
    rw [ofJsonArgs?, ih, List.mapM_cons]
    cases ofJson? j with
    | none => rfl
    | some t => cases js.mapM ofJson? <;> rfl

theorem ofJson?_toJson {t : Term} (h : t.fits = true) : ofJson? t.toJson = some t := by
  induction t with
  | const n => simp [toJson, ofJson?, Json.name?, Json.ofName, Json.str?]
  | var n => simp [toJson, ofJson?, Json.name?, Json.ofName, Json.str?]
  | app f ts ih =>
    obtain ⟨hf, hts⟩ := fits_app.mp h
    have hsymbol : Symbol.ofJson? f.toJson = some f := by
      simp [Symbol.ofJson?, Symbol.toJson, Json.str?, Json.count?_ofNat hf]
    have hargs : ofJsonArgs? (toJsonArgs ts) = some ts := by
      rw [ofJsonArgs?_eq_mapM, toJsonArgs_eq_map]
      exact Json.mapM_map_eq_some fun t ht => ih t ht (hts t ht)
    simp only [toJson, ofJson?, hsymbol, hargs]

end Term

def Clause.Fits (c : Clause) : Prop := ∀ l ∈ c, l.term.fits = true

theorem Literal.ofJson?_toJson {l : Literal} (h : l.term.fits = true) :
    ofJson? l.toJson = some l := by
  simp [ofJson?, toJson, Json.bool?, Term.ofJson?_toJson h]

theorem Clause.ofList_toList (c : Clause) : ofList c.toList = c :=
  congrArg Clause.mk (SortedSet.ofList_toList c.literals)

theorem Clause.ofJson?_toJson {c : Clause} (h : c.Fits) : ofJson? c.toJson = some c := by
  have hliterals : Json.list? Literal.ofJson? (.ofList Literal.toJson c.toList) = some c.toList :=
    Json.list?_ofList fun l hl => Literal.ofJson?_toJson (h l hl)
  rw [ofJson?, toJson, Json.required?_self, hliterals, Option.map_some, ofList_toList]

end Logic

section Answers

theorem Verdict.ofJson?_toJson (v : Verdict) : ofJson? v.toJson = some v := by
  cases v <;> rfl

theorem Cutoff.ofJson?_toJson (c : Cutoff) : ofJson? c.toJson = some c := by
  cases c <;> rfl

structure Tally.Fits (t : Tally) : Prop where
  rounds : t.rounds < Json.countBound
  resolutions : t.resolutions < Json.countBound
  generated : t.generated < Json.countBound
  clauses : t.clauses < Json.countBound

def Origin.Fits (o : Origin) : Prop := ∀ i ∈ o.premises, i < Json.countBound

structure Step.Fits (s : Step) : Prop where
  index : s.index < Json.countBound
  origin : s.origin.Fits
  conclusion : s.conclusion.Fits

structure Refutation.Fits (r : Refutation) : Prop where
  steps : ∀ s ∈ r.steps, s.Fits
  root : r.root < Json.countBound

structure Answer.Fits (a : Answer) : Prop where
  tally : a.tally.Fits
  refutation : ∀ r ∈ a.refutation, r.Fits

theorem Tally.ofJson?_toJson {t : Tally} (h : t.Fits) : ofJson? t.toJson = some t := by
  have hcutoff : Json.nullable? Cutoff.ofJson? (.ofOption Cutoff.toJson t.cutoff) =
      some t.cutoff :=
    Json.nullable?_ofOption (fun c _ => c.ofJson?_toJson)
      (fun c => by cases c <;> simp [Cutoff.toJson])
  simp [ofJson?, toJson, Json.optional?, Json.count?_ofNat h.rounds,
    Json.count?_ofNat h.resolutions, Json.count?_ofNat h.generated, Json.count?_ofNat h.clauses,
    hcutoff]

theorem Origin.ofJson?_toJson {o : Origin} (h : o.Fits) : ofJson? o.toJson = some o := by
  cases o with
  | given => rfl
  | negatedQuery => rfl
  | resolved left right =>
    have hleft : left < Json.countBound := h left (by simp [premises])
    have hright : right < Json.countBound := h right (by simp [premises])
    simp [ofJson?, toJson, Json.count?_ofNat hleft, Json.count?_ofNat hright]

theorem Step.ofJson?_toJson {s : Step} (h : s.Fits) : ofJson? s.toJson = some s := by
  simp [ofJson?, toJson, Json.count?_ofNat h.index, Origin.ofJson?_toJson h.origin,
    Clause.ofJson?_toJson h.conclusion]

theorem Refutation.ofJson?_toJson {r : Refutation} (h : r.Fits) : ofJson? r.toJson = some r := by
  have hsteps : Json.list? Step.ofJson? (.ofList Step.toJson r.steps) = some r.steps :=
    Json.list?_ofList fun s hs => Step.ofJson?_toJson (h.steps s hs)
  simp [ofJson?, toJson, hsteps, Json.count?_ofNat h.root]

theorem Answer.ofJson?_toJson {a : Answer} (h : a.Fits) : ofJson? a.toJson = some a := by
  have hrefutation : Json.nullable? Refutation.ofJson?
      (.ofOption Refutation.toJson a.refutation) = some a.refutation :=
    Json.nullable?_ofOption (fun r hr => Refutation.ofJson?_toJson (h.refutation r hr))
      (by simp [Refutation.toJson])
  simp [ofJson?, toJson, Json.optional?, Verdict.ofJson?_toJson, Tally.ofJson?_toJson h.tally,
    hrefutation]

end Answers

/-- Reading undoes writing for what is stored and what is returned: knowledge bases, and limits,
clauses and answers whose numbers fit in a count. -/
theorem ofJson?_toJson_eq_some :
    (∀ k : KnowledgeBase, KnowledgeBase.ofJson? k.toJson = some k) ∧
    (∀ l : Limits, l.Fits → Limits.ofJson? l.toJson = some l) ∧
    (∀ c : Clause, c.Fits → Clause.ofJson? c.toJson = some c) ∧
    ∀ a : Answer, a.Fits → Answer.ofJson? a.toJson = some a :=
  ⟨KnowledgeBase.ofJson?_toJson, fun _ => Limits.ofJson?_toJson, fun _ => Clause.ofJson?_toJson,
    fun _ => Answer.ofJson?_toJson⟩

section Example

/-- A rule lists its premises in another order than they are kept in, and a stored clause lists a
text twice. -/
def savedKnowledge : KnowledgeBase where
  facts := .ofList ["Wet(Street)", "", "Rain"]
  rules := .ofList [.ofList ["Wet(x)", "Cold", "Wet(x)"] "Icy(x)"]
  clauses := .ofList [["Rain", "Rain", "Snow"], []]

/-- The largest number of rounds that fits, and a time just short of two seconds. -/
def savedLimits : Limits := ⟨Json.countBound - 1, some 0, some ⟨1, 999999999, by decide⟩⟩

/-- Names and declared arities that no text has. -/
def savedClause : Clause := .ofList
  [⟨true, .app ⟨"", 7⟩ []⟩, ⟨false, .app ⟨"f", 0⟩ [.var "Marco", .const "x y"]⟩]

def savedAnswer : Answer where
  verdict := .proven
  tally := ⟨1, 1, 0, 3, none⟩
  refutation := some ⟨[⟨0, .given, savedClause⟩, ⟨1, .negatedQuery, .unit ⟨false, .const "A"⟩⟩,
    ⟨2, .resolved 0 1, .empty⟩], 2⟩

theorem savedClause_fits : savedClause.Fits := by
  simp [Clause.Fits, savedClause, Term.fits, Term.fitIn, Json.countBound]

theorem savedAnswer_fits : savedAnswer.Fits := by
  refine ⟨⟨by decide, by decide, by decide, by decide⟩, ?_⟩
  intro r hr
  cases hr
  refine ⟨?_, by decide⟩
  intro s hs
  simp only [List.mem_cons, List.not_mem_nil, or_false] at hs
  rcases hs with rfl | rfl | rfl
  · exact ⟨by decide, by simp [Origin.Fits, Origin.premises], savedClause_fits⟩
  · exact ⟨by decide, by simp [Origin.Fits, Origin.premises], by simp [Clause.Fits, Term.fits]⟩
  · exact ⟨by decide, by simp [Origin.Fits, Origin.premises, Json.countBound],
      by simp [Clause.Fits]⟩

theorem ofJson?_toJson_eq_some_saved :
    KnowledgeBase.ofJson? savedKnowledge.toJson = some savedKnowledge ∧
    savedLimits.Fits ∧ Limits.ofJson? savedLimits.toJson = some savedLimits ∧
    savedClause.Fits ∧ Clause.ofJson? savedClause.toJson = some savedClause ∧
    savedAnswer.Fits ∧ Answer.ofJson? savedAnswer.toJson = some savedAnswer := by
  have limits_fit : savedLimits.Fits :=
    ⟨by decide, by simp [savedLimits, Json.countBound],
      by simp [savedLimits, Duration.Fits, Json.countBound]⟩
  obtain ⟨knowledge, limits, clause, answer⟩ := ofJson?_toJson_eq_some
  exact ⟨knowledge _, limits_fit, limits _ limits_fit, savedClause_fits, clause _ savedClause_fits,
    savedAnswer_fits, answer _ savedAnswer_fits⟩

end Example

end Clausal
