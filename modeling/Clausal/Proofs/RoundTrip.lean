import Clausal.Proofs.Parsing

/-!
# Writing and reading are inverse

A term is well formed when it can be written. The texts of the grammar are those of well-formed
terms, so reading undoes writing on all that reading can yield.
-/

namespace Clausal

set_option autoImplicit false

namespace Text

def isNameText (name : String) : Bool := !name.toList.isEmpty && name.toList.all isNameChar

theorem isNameText_iff {name : String} : isNameText name = true ↔ IsName name.toList := by
  rw [isNameText, Bool.and_eq_true, Bool.not_eq_true', List.all_eq_true, List.isEmpty_eq_false_iff]
  exact ⟨fun h => ⟨h.1, h.2⟩, fun h => ⟨h.ne_nil, h.chars⟩⟩

end Text

namespace Term

open Text

mutual

/-- The term can be written and read again. -/
def wellFormed : Term → Bool
  | const n => isNameText n && !isVariableName n
  | var n => isNameText n && isVariableName n
  | app f ts => isNameText f.name && !ts.isEmpty && f.arity = ts.length && areWellFormed ts

def areWellFormed : List Term → Bool
  | [] => true
  | t :: ts => wellFormed t && areWellFormed ts

end

theorem areWellFormed_iff {ts : List Term} :
    areWellFormed ts = true ↔ ∀ t ∈ ts, t.wellFormed = true := by
  induction ts with
  | nil => simp [areWellFormed]
  | cons t ts ih => simp [areWellFormed, ih]

theorem wellFormed_const {n : String} :
    (const n).wellFormed = true ↔ IsName n.toList ∧ ¬ NamesVariable n.toList := by
  rw [wellFormed, Bool.and_eq_true, isNameText_iff, Bool.not_eq_true', Bool.eq_false_iff, ne_eq,
    ← isVariableName_iff, String.ofList_toList]

theorem wellFormed_var {n : String} :
    (var n).wellFormed = true ↔ IsName n.toList ∧ NamesVariable n.toList := by
  rw [wellFormed, Bool.and_eq_true, isNameText_iff, ← isVariableName_iff, String.ofList_toList]

theorem wellFormed_app {f : Symbol} {ts : List Term} :
    (app f ts).wellFormed = true ↔
      IsName f.name.toList ∧ ts ≠ [] ∧ f.arity = ts.length ∧ ∀ t ∈ ts, t.wellFormed = true := by
  simp [wellFormed, isNameText_iff, areWellFormed_iff, and_assoc]

end Term

namespace Text

theorem argumentsText_charsOfMoreArgs {ts : List Term} (h : ∀ t ∈ ts, TermText t.chars t) :
    ArgumentsText (Term.charsOfMoreArgs ts) ts := by
  induction ts with
  | nil => exact .close blanks_nil
  | cons t ts ih =>
    obtain ⟨ht, hts⟩ := List.forall_mem_cons.mp h
    exact .comma blanks_nil blanks_space ht (ih hts)

/-- What is written for a well-formed term is a text for it. -/
theorem termText_chars {t : Term} (h : t.wellFormed = true) : TermText t.chars t := by
  induction t with
  | const n =>
    obtain ⟨hname, hvar⟩ := Term.wellFormed_const.mp h
    have htext := TermText.const hname hvar
    rwa [String.ofList_toList] at htext
  | var n =>
    obtain ⟨hname, hvar⟩ := Term.wellFormed_var.mp h
    have htext := TermText.var hname hvar
    rwa [String.ofList_toList] at htext
  | app f ts ih =>
    obtain ⟨hname, hne, harity, hts⟩ := Term.wellFormed_app.mp h
    cases ts with
    | nil => exact absurd rfl hne
    | cons t ts =>
      obtain ⟨ht, hts⟩ := List.forall_mem_cons.mp fun u hu => ih u hu (hts u hu)
      have htext := TermText.app hname blanks_nil blanks_nil ht (argumentsText_charsOfMoreArgs hts)
      rw [String.ofList_toList, ← List.length_cons (a := t), ← harity] at htext
      exact htext

theorem literalText_chars {l : Literal} (h : l.term.wellFormed = true) :
    LiteralText l.chars l := by
  have ht := termText_chars h
  obtain ⟨positive, t⟩ := l
  cases positive with
  | true => exact .positive ht
  | false => exact .negative (Or.inl rfl) blanks_nil ht

theorem padded_of_text {α : Type} {P : List Char → α → Prop} {text : List Char} {value : α}
    (h : P text value) : Padded P text value :=
  ⟨[], text, [], by simp, blanks_nil, blanks_nil, h⟩

mutual

theorem TermText.wellFormed {text : List Char} {t : Term} (h : TermText text t) :
    t.wellFormed = true := by
  cases h with
  | var hname hvar =>
    rw [Term.wellFormed_var, String.toList_ofList]
    exact ⟨hname, hvar⟩
  | const hname hvar =>
    rw [Term.wellFormed_const, String.toList_ofList]
    exact ⟨hname, hvar⟩
  | app hname _ _ hfirst hothers =>
    rw [Term.wellFormed_app, String.toList_ofList]
    exact ⟨hname, by simp, rfl, List.forall_mem_cons.mpr ⟨hfirst.wellFormed, hothers.wellFormed⟩⟩

theorem ArgumentsText.wellFormed {text : List Char} {ts : List Term} (h : ArgumentsText text ts) :
    ∀ t ∈ ts, t.wellFormed = true := by
  cases h with
  | close _ => simp
  | comma _ _ hnext hothers =>
    exact List.forall_mem_cons.mpr ⟨hnext.wellFormed, hothers.wellFormed⟩

end

theorem LiteralText.wellFormed {text : List Char} {l : Literal} (h : LiteralText text l) :
    l.term.wellFormed = true := by
  cases h with
  | positive ht => exact ht.wellFormed
  | negative _ _ ht => exact ht.wellFormed

end Text

open Text

theorem Term.parse_text {t : Term} (h : t.wellFormed = true) : Term.parse t.text = .ok t := by
  apply (parseWith_eq_ok_iff reads_term).mpr
  rw [Term.text, String.toList_ofList]
  exact padded_of_text (termText_chars h)

theorem Literal.parse_text {l : Literal} (h : l.term.wellFormed = true) :
    Literal.parse l.text = .ok l := by
  apply (parseWith_eq_ok_iff reads_literal).mpr
  rw [Literal.text, String.toList_ofList]
  exact padded_of_text (literalText_chars h)

theorem Term.wellFormed_of_parse_eq_ok {input : String} {t : Term}
    (h : Term.parse input = .ok t) : t.wellFormed = true := by
  obtain ⟨_, _, _, -, -, -, htext⟩ := (parseWith_eq_ok_iff reads_term).mp h
  exact htext.wellFormed

theorem Literal.wellFormed_of_parse_eq_ok {input : String} {l : Literal}
    (h : Literal.parse input = .ok l) : l.term.wellFormed = true := by
  obtain ⟨_, _, _, -, -, -, htext⟩ := (parseWith_eq_ok_iff reads_literal).mp h
  exact htext.wellFormed

/-- Reading what is written for a well-formed term or literal gives it back, and whatever is read
from a text is well formed, so that writing it and reading again gives it back too. -/
theorem parse_inverse_text :
    (∀ l : Literal, l.term.wellFormed = true → Literal.parse l.text = .ok l) ∧
    (∀ t : Term, t.wellFormed = true → Term.parse t.text = .ok t) ∧
    (∀ (input : String) (l : Literal), Literal.parse input = .ok l →
      l.term.wellFormed = true ∧ Literal.parse l.text = .ok l) ∧
    (∀ (input : String) (t : Term), Term.parse input = .ok t →
      t.wellFormed = true ∧ Term.parse t.text = .ok t) := by
  refine ⟨fun l => Literal.parse_text, fun t => Term.parse_text, ?_, ?_⟩
  · intro input l h
    have hl := Literal.wellFormed_of_parse_eq_ok h
    exact ⟨hl, Literal.parse_text hl⟩
  · intro input t h
    have ht := Term.wellFormed_of_parse_eq_ok h
    exact ⟨ht, Term.parse_text ht⟩

def disloyal : Literal :=
  ⟨false, .compound "Leal" [.compound "amo" [.var "?quien"], .const "Cesar"]⟩

theorem parse_inverse_text_disloyal :
    (disloyal.term.wellFormed = true ∧ Literal.parse disloyal.text = .ok disloyal ∧
      Term.parse disloyal.term.text = .ok disloyal.term) ∧
    Literal.parse " ~ Leal( amo(?quien),Cesar)" = .ok disloyal ∧
    disloyal.text = "¬Leal(amo(?quien), Cesar)" := by
  obtain ⟨hliteral, hterm, hread, -⟩ := parse_inverse_text
  have hspaced : Literal.parse " ~ Leal( amo(?quien),Cesar)" = .ok disloyal := rfl
  have hformed := (hread _ _ hspaced).1
  exact ⟨⟨hformed, hliteral _ hformed, hterm _ hformed⟩, hspaced, rfl⟩

end Clausal
