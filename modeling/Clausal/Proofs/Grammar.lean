import Clausal.Proofs.Terms
import Clausal.Text.Reader

/-!
# The grammar of literals

The grammar is a relation between texts and what they say:

    literal = ws [("¬" | "~") ws] term ws
    term    = name | name ws "(" ws term (ws "," ws term)* ws ")"

A name is a non-empty run of name characters, and `ws` is a run of blanks.
-/

namespace Clausal.Text

set_option autoImplicit false

def Blanks (text : List Char) : Prop := ∀ c ∈ text, isBlank c = true

def NoBlank (text : List Char) : Prop := ∀ c, text.head? = some c → isBlank c = false

structure IsName (text : List Char) : Prop where
  ne_nil : text ≠ []
  chars : ∀ c ∈ text, isNameChar c = true

def NamesVariable (name : List Char) : Prop :=
  name = ['x'] ∨ name = ['y'] ∨ name = ['z'] ∨ name = ['m'] ∨ ∃ rest, name = '?' :: rest

mutual

inductive TermText : List Char → Term → Prop where
  | var {name : List Char} :
    IsName name → NamesVariable name → TermText name (.var (String.ofList name))
  | const {name : List Char} :
    IsName name → ¬ NamesVariable name → TermText name (.const (String.ofList name))
  | app {name w w' first others : List Char} {t : Term} {ts : List Term} :
    IsName name → Blanks w → Blanks w' → TermText first t → ArgumentsText others ts →
    TermText (name ++ (w ++ '(' :: (w' ++ (first ++ others))))
      (.app ⟨String.ofList name, ts.length + 1⟩ (t :: ts))

/-- The arguments after the first one, with the closing parenthesis. -/
inductive ArgumentsText : List Char → List Term → Prop where
  | close {w : List Char} : Blanks w → ArgumentsText (w ++ [')']) []
  | comma {w w' next others : List Char} {t : Term} {ts : List Term} :
    Blanks w → Blanks w' → TermText next t → ArgumentsText others ts →
    ArgumentsText (w ++ ',' :: (w' ++ (next ++ others))) (t :: ts)

end

inductive LiteralText : List Char → Literal → Prop where
  | positive {text : List Char} {t : Term} : TermText text t → LiteralText text ⟨true, t⟩
  | negative {sign : Char} {w text : List Char} {t : Term} :
    sign = '¬' ∨ sign = '~' → Blanks w → TermText text t →
    LiteralText (sign :: (w ++ text)) ⟨false, t⟩

/-- A text of the relation with blanks around it. -/
def Padded {α : Type} (P : List Char → α → Prop) (text : List Char) (value : α) : Prop :=
  ∃ w inner w', text = w ++ (inner ++ w') ∧ Blanks w ∧ Blanks w' ∧ P inner value

section Characters

theorem isNameChar_of_toNat_mem :
    ∀ n ∈ [0x09, 0x0A, 0x0B, 0x0C, 0x0D, 0x20, 0x85, 0xA0, 0x1680, 0x2000, 0x2001, 0x2002, 0x2003,
      0x2004, 0x2005, 0x2006, 0x2007, 0x2008, 0x2009, 0x200A, 0x2028, 0x2029, 0x202F, 0x205F,
      0x3000], isNameChar (Char.ofNat n) = false := by
  decide +kernel

/-- White space is no part of a name. -/
theorem isNameChar_of_isWhiteSpace {c : Char} (h : isWhiteSpace c = true) :
    isNameChar c = false := by
  rw [← Char.ofNat_toNat c]
  apply isNameChar_of_toNat_mem
  simp only [isWhiteSpace, Bool.or_eq_true, Bool.and_eq_true, decide_eq_true_eq] at h
  simp only [List.mem_cons, List.not_mem_nil, or_false]
  omega

theorem isWhiteSpace_of_isNameChar {c : Char} (h : isNameChar c = true) :
    isWhiteSpace c = false := by
  cases hc : isWhiteSpace c with
  | false => rfl
  | true =>
    rw [isNameChar_of_isWhiteSpace hc] at h
    cases h

theorem isBlank_of_not_isWhiteSpace {c : Char} (h : isWhiteSpace c = false) :
    isBlank c = false := by
  cases hc : isBlank c with
  | false => rfl
  | true =>
    rw [isWhiteSpace_of_isBlank hc] at h
    cases h

theorem isNameChar_punctuation : ∀ c ∈ ['(', ')', ',', '¬', '~'], isNameChar c = false := by
  have hall : ['(', ')', ',', '¬', '~'].all (fun c => !isNameChar c) = true := by
    decide +kernel
  intro c hc
  simpa using List.all_eq_true.mp hall c hc

end Characters

theorem isVariableName_iff {name : List Char} :
    Term.isVariableName (String.ofList name) = true ↔ NamesVariable name := by
  simp only [Term.isVariableName, Bool.or_eq_true, beq_iff_eq, ← String.toList_inj,
    String.toList_ofList, List.head?_eq_some_iff, NamesVariable, or_assoc]
  exact Iff.rfl

theorem termText_ofName {name : List Char} (h : IsName name) :
    TermText name (.ofName (String.ofList name)) := by
  unfold Term.ofName
  split
  · exact .var h (isVariableName_iff.mp ‹_›)
  · exact .const h fun hv => ‹¬ _› (isVariableName_iff.mpr hv)

section Blanks

theorem blanks_nil : Blanks [] := by
  intro c hc
  cases hc

theorem blanks_space : Blanks [' '] := by
  simp [Blanks, isBlank]

theorem skipBlanks_append {w text : List Char} (hw : Blanks w) (htext : NoBlank text) :
    skipBlanks (w ++ text) = text := by
  unfold skipBlanks
  rw [List.dropWhile_append_of_pos hw]
  cases text with
  | nil => rfl
  | cons c text =>
    apply List.dropWhile_cons_of_neg
    rw [htext c rfl]
    exact Bool.false_ne_true

theorem skipBlanks_append_cons {w rest : List Char} {c : Char} (hw : Blanks w)
    (hc : isBlank c = false) : skipBlanks (w ++ c :: rest) = c :: rest := by
  apply skipBlanks_append hw
  intro d hd
  cases hd
  exact hc

end Blanks

theorem startsWithName_blanks_append {w rest : List Char} (hw : Blanks w)
    (hrest : startsWithName rest = false) : startsWithName (w ++ rest) = false := by
  cases w with
  | nil => exact hrest
  | cons c w =>
    exact isNameChar_of_isWhiteSpace (isWhiteSpace_of_isBlank (hw c List.mem_cons_self))

/-- What may follow a term: it neither goes on with a name nor opens an argument list. -/
structure Ends (rest : List Char) : Prop where
  noName : startsWithName rest = false
  noArguments : ∀ inner, skipBlanks rest ≠ '(' :: inner

theorem ends_of_blanks_append {w rest : List Char} (hw : Blanks w)
    (hname : startsWithName rest = false)
    (hrest : ∀ c, rest.head? = some c → isBlank c = false ∧ c ≠ '(') : Ends (w ++ rest) where
  noName := startsWithName_blanks_append hw hname
  noArguments := by
    intro inner h
    rw [skipBlanks_append hw fun c hc => (hrest c hc).1] at h
    exact (hrest '(' (by rw [h]; rfl)).2 rfl

theorem ends_of_blanks {w : List Char} (hw : Blanks w) : Ends w := by
  have h : Ends (w ++ []) := ends_of_blanks_append hw rfl (by simp)
  rwa [List.append_nil] at h

theorem ends_of_comma {w : List Char} (hw : Blanks w) (rest : List Char) :
    Ends (w ++ ',' :: rest) := by
  apply ends_of_blanks_append hw
  · exact isNameChar_punctuation ',' (by simp)
  · intro c hc
    cases hc
    decide

theorem ArgumentsText.ends {others : List Char} {ts : List Term} (h : ArgumentsText others ts)
    (rest : List Char) : Ends (others ++ rest) := by
  cases h with
  | close hw =>
    rw [List.append_assoc]
    apply ends_of_blanks_append hw
    · exact isNameChar_punctuation ')' (by simp)
    · intro c hc
      cases hc
      decide
  | comma hw _ _ _ =>
    rw [List.append_assoc]
    exact ends_of_comma hw _

theorem IsName.startsWithName_append {name : List Char} (h : IsName name) (rest : List Char) :
    startsWithName (name ++ rest) = true := by
  cases name with
  | nil => exact absurd rfl h.ne_nil
  | cons c name => exact h.chars c List.mem_cons_self

theorem TermText.startsWithName_append {text : List Char} {t : Term} (h : TermText text t)
    (rest : List Char) : startsWithName (text ++ rest) = true := by
  cases h with
  | var hname _ => exact hname.startsWithName_append rest
  | const hname _ => exact hname.startsWithName_append rest
  | app hname _ _ _ _ =>
    rw [List.append_assoc]
    exact hname.startsWithName_append _

theorem noBlank_of_startsWithName {text : List Char} (h : startsWithName text = true) :
    NoBlank text := by
  intro c hc
  cases text with
  | nil => cases h
  | cons d text =>
    cases hc
    exact isBlank_of_not_isWhiteSpace (isWhiteSpace_of_isNameChar h)

theorem skipBlanks_of_startsWithName {w text : List Char} (hw : Blanks w)
    (h : startsWithName text = true) : skipBlanks (w ++ text) = text :=
  skipBlanks_append hw (noBlank_of_startsWithName h)

end Clausal.Text
