import Clausal.Proofs.Readings

/-!
# Parsing accepts the grammar

A reader reads a relation when it yields a value exactly for the texts related to it and leaves
what comes after them. Both directions go by the depth of the readings, for terms and argument
lists at once. Parsing accepts exactly the texts of the grammar.
-/

namespace Clausal.Text

set_option autoImplicit false

section Soundness

/-- What readings of this depth take from a text is the text of what they yield. -/
structure Faithful (depth : Nat) : Prop where
  term : ∀ {text t rest}, readTerm depth text = .ok (t, rest) →
    ∃ front, text = front ++ rest ∧ TermText front t
  arguments : ∀ {text ts rest}, readArguments depth text = .ok (ts, rest) →
    ∃ front, text = front ++ rest ∧ ArgumentsText front ts

variable {depth : Nat} {text rest : List Char}

theorem Faithful.readTerm_succ {t : Term} (hdepth : Faithful depth)
    (h : readTerm (depth + 1) text = .ok (t, rest)) :
    ∃ front, text = front ++ rest ∧ TermText front t := by
  cases readTerm_succ_eq_iff.mp h with
  | bare hname _ => exact ⟨_, rfl, termText_ofName hname⟩
  | app hname hw hw' _ hfirst hothers =>
    obtain ⟨front₁, rfl, htext₁⟩ := hdepth.term hfirst
    obtain ⟨front₂, rfl, htext₂⟩ := hdepth.arguments hothers
    exact ⟨_, by simp, .app hname hw hw' htext₁ htext₂⟩

theorem Faithful.readArguments_succ {ts : List Term} (hdepth : Faithful depth)
    (h : readArguments (depth + 1) text = .ok (ts, rest)) :
    ∃ front, text = front ++ rest ∧ ArgumentsText front ts := by
  cases readArguments_succ_eq_iff.mp h with
  | close hw => exact ⟨_, by simp, .close hw⟩
  | comma hw hw' _ hnext hothers =>
    obtain ⟨front₁, rfl, htext₁⟩ := hdepth.term hnext
    obtain ⟨front₂, rfl, htext₂⟩ := hdepth.arguments hothers
    exact ⟨_, by simp, .comma hw hw' htext₁ htext₂⟩

theorem faithful (depth : Nat) : Faithful depth := by
  induction depth with
  | zero =>
    constructor
    · intro text t rest h
      cases h
    · intro text ts rest h
      cases h
  | succ depth ih => exact ⟨ih.readTerm_succ, ih.readArguments_succ⟩

end Soundness

section Completeness

/-- Texts shorter than the depth are read as what they say, and what follows is left. -/
structure Thorough (depth : Nat) : Prop where
  term : ∀ {text t rest}, TermText text t → Ends rest → text.length < depth →
    readTerm depth (text ++ rest) = .ok (t, rest)
  arguments : ∀ {text ts rest}, ArgumentsText text ts → text.length < depth →
    readArguments depth (text ++ rest) = .ok (ts, rest)

variable {depth : Nat}

theorem Thorough.readTerm_succ {text rest : List Char} {t : Term} (hdepth : Thorough depth)
    (h : TermText text t) (hrest : Ends rest) (hlength : text.length < depth + 1) :
    readTerm (depth + 1) (text ++ rest) = .ok (t, rest) := by
  cases h with
  | var hname hvar =>
    rw [TermReading.eq (.bare hname hrest), Term.ofName, if_pos (isVariableName_iff.mpr hvar)]
  | const hname hvar =>
    rw [TermReading.eq (.bare hname hrest), Term.ofName,
      if_neg (fun h => hvar (isVariableName_iff.mp h))]
  | @app name w w' first others t ts hname hw hw' hfirst hothers =>
    simp only [List.length_append, List.length_cons] at hlength
    have hstart := hfirst.startsWithName_append (others ++ rest)
    simp only [List.append_assoc, List.cons_append]
    apply TermReading.eq
    apply TermReading.app hname hw hw' (noBlank_of_startsWithName hstart)
    · exact hdepth.term hfirst (hothers.ends rest) (by omega)
    · exact hdepth.arguments hothers (by omega)

theorem Thorough.readArguments_succ {text rest : List Char} {ts : List Term}
    (hdepth : Thorough depth) (h : ArgumentsText text ts) (hlength : text.length < depth + 1) :
    readArguments (depth + 1) (text ++ rest) = .ok (ts, rest) := by
  cases h with
  | close hw =>
    rw [List.append_assoc]
    exact ArgumentsReading.eq (.close hw)
  | @comma w w' next others t ts hw hw' hnext hothers =>
    simp only [List.length_append, List.length_cons] at hlength
    have hstart := hnext.startsWithName_append (others ++ rest)
    simp only [List.append_assoc, List.cons_append]
    apply ArgumentsReading.eq
    apply ArgumentsReading.comma hw hw' hstart
    · exact hdepth.term hnext (hothers.ends rest) (by omega)
    · exact hdepth.arguments hothers (by omega)

theorem thorough (depth : Nat) : Thorough depth := by
  induction depth with
  | zero =>
    constructor
    · intro text t rest _ _ hlength
      cases hlength
    · intro text ts rest _ hlength
      cases hlength
  | succ depth ih => exact ⟨ih.readTerm_succ, ih.readArguments_succ⟩

end Completeness

/-- A reader yields a value, and leaves what follows, exactly for the texts related to it. Such
texts show something. -/
structure Reads {α : Type} (read : Nat → List Char → Reading α) (P : List Char → α → Prop) :
    Prop where
  sound : ∀ {depth text value rest}, read depth text = .ok (value, rest) →
    ∃ front, text = front ++ rest ∧ P front value
  complete : ∀ {depth text value rest}, P text value → Ends rest → text.length < depth →
    read depth (text ++ rest) = .ok (value, rest)
  visible : ∀ {text value}, P text value → ∃ c rest, text = c :: rest ∧ isWhiteSpace c = false

theorem reads_term : Reads readTerm TermText where
  sound := (faithful _).term
  complete := (thorough _).term
  visible := by
    intro text t h
    have hstart := h.startsWithName_append []
    rw [List.append_nil] at hstart
    cases text with
    | nil => cases hstart
    | cons c rest => exact ⟨c, rest, rfl, isWhiteSpace_of_isNameChar hstart⟩

theorem reads_literal : Reads readLiteral LiteralText where
  sound := by
    intro depth text l rest h
    cases readLiteral_eq_iff.mp h with
    | positive _ ht =>
      obtain ⟨front, hfront, htext⟩ := (faithful depth).term ht
      exact ⟨front, hfront, .positive htext⟩
    | negative hsign hw _ ht =>
      obtain ⟨front, rfl, htext⟩ := (faithful depth).term ht
      exact ⟨_, by simp, .negative hsign hw htext⟩
  complete := by
    intro depth text l rest h hrest hlength
    cases h with
    | positive ht =>
      have hstart := ht.startsWithName_append rest
      apply LiteralReading.eq
      exact .positive (noSign_of_startsWithName hstart) ((thorough depth).term ht hrest hlength)
    | @negative sign w text t hsign hw ht =>
      have hstart := ht.startsWithName_append rest
      simp only [List.length_cons, List.length_append] at hlength
      rw [List.cons_append, List.append_assoc]
      apply LiteralReading.eq
      apply LiteralReading.negative hsign hw (noBlank_of_startsWithName hstart)
      exact (thorough depth).term ht hrest (by omega)
  visible := by
    intro text l h
    cases h with
    | positive ht => exact reads_term.visible ht
    | @negative sign w text t hsign hw ht =>
      refine ⟨sign, _, rfl, ?_⟩
      rcases hsign with rfl | rfl
      · decide
      · decide

section Parsing

variable {α : Type} {read : Nat → List Char → Reading α} {P : List Char → α → Prop}
variable (hread : Reads read P)
include hread

theorem readAll_eq_ok_iff {text : List Char} {value : α} :
    readAll read text = .ok value ↔ Padded P text value := by
  constructor
  · intro h
    cases readAll_eq_iff.mp h with
    | padded hw _ hok hw' =>
      obtain ⟨front, rfl, hvalue⟩ := hread.sound hok
      exact ⟨_, front, _, rfl, hw, hw', hvalue⟩
  · rintro ⟨w, inner, w', rfl, hw, hw', hvalue⟩
    have hblank : NoBlank (inner ++ w') := by
      obtain ⟨c, rest, rfl, hc⟩ := hread.visible hvalue
      intro d hd
      cases hd
      exact isBlank_of_not_isWhiteSpace hc
    have hlength : inner.length < (w ++ (inner ++ w')).length + 1 := by
      simp only [List.length_append]
      omega
    apply WholeReading.eq
    exact .padded hw hblank (hread.complete hvalue (ends_of_blanks hw') hlength) hw'

theorem parseWith_eq_ok_iff {input : String} {value : α} :
    parseWith read input = .ok value ↔ Padded P input.toList value := by
  rw [parseWith_eq_ok_iff_readAll, readAll_eq_ok_iff hread, and_iff_right_iff_imp]
  rintro ⟨w, inner, w', htext, -, -, hvalue⟩ hempty
  obtain ⟨c, rest, rfl, hc⟩ := hread.visible hvalue
  have hwhite := List.all_eq_true.mp hempty c (by rw [htext]; simp)
  rw [hc] at hwhite
  cases hwhite

end Parsing

/-- A text parses as a literal exactly when it is one of the grammar, with the literal that the
grammar gives it, and likewise for terms. -/
theorem parse_eq_ok_iff_text (input : String) :
    (∀ l, Literal.parse input = .ok l ↔ Padded LiteralText input.toList l) ∧
    (∀ t, Term.parse input = .ok t ↔ Padded TermText input.toList t) := by
  constructor
  · intro l
    exact parseWith_eq_ok_iff reads_literal
  · intro t
    exact parseWith_eq_ok_iff reads_term

end Clausal.Text
