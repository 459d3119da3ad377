import Clausal.Proofs.Parsing

/-!
# Where reading stops

A reading that yields no value stops at a place in the text, and the fault is told from that place.
The places form a relation between what was read and what remains, beside the grammar.
-/

namespace Clausal.Text

set_option autoImplicit false

section Places

variable (rest : List Char)

mutual

/-- A term has been read so far, and the rest remains. -/
inductive TermStop : List Char → Prop where
  | noName : startsWithName rest = false → NoBlank rest → TermStop []
  | inFirst {name w w' consumed : List Char} :
    IsName name → Blanks w → Blanks w' → TermStop consumed →
    TermStop (name ++ (w ++ '(' :: (w' ++ consumed)))
  | inOthers {name w w' first consumed : List Char} {t : Term} :
    IsName name → Blanks w → Blanks w' → TermText first t → ArgumentsStop consumed →
    TermStop (name ++ (w ++ '(' :: (w' ++ (first ++ consumed))))

/-- The arguments after the first one have been read so far. -/
inductive ArgumentsStop : List Char → Prop where
  | here {w : List Char} : Blanks w → NoFurther rest → ArgumentsStop w
  | inNext {w w' consumed : List Char} :
    Blanks w → Blanks w' → consumed ≠ [] → TermStop consumed →
    ArgumentsStop (w ++ ',' :: (w' ++ consumed))
  | inOthers {w w' next consumed : List Char} {t : Term} :
    Blanks w → Blanks w' → TermText next t → ArgumentsStop consumed →
    ArgumentsStop (w ++ ',' :: (w' ++ (next ++ consumed)))

end

inductive LiteralStop : List Char → Prop where
  | positive {consumed : List Char} : TermStop rest consumed → LiteralStop consumed
  | negative {sign : Char} {w consumed : List Char} :
    sign = '¬' ∨ sign = '~' → Blanks w → TermStop rest consumed →
    LiteralStop (sign :: (w ++ consumed))

end Places

/-- A whole text has been read so far: its value stops, or is complete and something follows. -/
inductive Halt {α : Type} (P : List Char → α → Prop) (Q : List Char → List Char → Prop)
    (rest : List Char) : List Char → Prop where
  | within {w consumed : List Char} : Blanks w → Q rest consumed → Halt P Q rest (w ++ consumed)
  | after {w inner w' : List Char} {value : α} :
    Blanks w → P inner value → Blanks w' → rest ≠ [] → NoBlank rest →
    Halt P Q rest (w ++ (inner ++ w'))

/-- Where a name starts it is read. -/
theorem TermStop.ne_nil {consumed rest : List Char} (h : TermStop rest consumed)
    (hstart : startsWithName (consumed ++ rest) = true) : consumed ≠ [] := by
  cases h with
  | noName hno _ =>
    rw [List.nil_append, hno] at hstart
    cases hstart
  | inFirst hname _ _ _ => simp [hname.ne_nil]
  | inOthers hname _ _ _ _ => simp [hname.ne_nil]

section NoBlank

mutual

theorem TermStop.noBlank {rest : List Char} :
    ∀ {consumed : List Char}, TermStop rest consumed → NoBlank rest
  | _, .noName _ hblank => hblank
  | _, .inFirst _ _ _ hstop => hstop.noBlank
  | _, .inOthers _ _ _ _ hstop => hstop.noBlank

theorem ArgumentsStop.noBlank {rest : List Char} :
    ∀ {consumed : List Char}, ArgumentsStop rest consumed → NoBlank rest
  | _, .here _ hrest => hrest.noBlank
  | _, .inNext _ _ _ hstop => hstop.noBlank
  | _, .inOthers _ _ _ hstop => hstop.noBlank

end

theorem LiteralStop.noBlank {rest consumed : List Char} (h : LiteralStop rest consumed) :
    NoBlank rest := by
  cases h with
  | positive hstop => exact hstop.noBlank
  | negative _ _ hstop => exact hstop.noBlank

theorem Halt.noBlank {α : Type} {P : List Char → α → Prop} {Q : List Char → List Char → Prop}
    (hQ : ∀ {rest consumed}, Q rest consumed → NoBlank rest) {rest consumed : List Char}
    (h : Halt P Q rest consumed) : NoBlank rest := by
  cases h with
  | within _ hstop => exact hQ hstop
  | after _ _ _ _ hblank => exact hblank

end NoBlank

section Depth

/-- Readings of this depth stop only at such places, in texts shorter than the depth. -/
structure Stopping (depth : Nat) : Prop where
  term : ∀ {text stop}, readTerm depth text = .error stop → text.length < depth → NoBlank text →
    ∃ consumed, text = consumed ++ stop ∧ TermStop stop consumed
  arguments : ∀ {text stop}, readArguments depth text = .error stop → text.length < depth →
    ∃ consumed, text = consumed ++ stop ∧ ArgumentsStop stop consumed

variable {depth : Nat} {text stop : List Char}

theorem Stopping.readTerm_succ (hdepth : Stopping depth)
    (h : readTerm (depth + 1) text = .error stop) (hlength : text.length < depth + 1)
    (hblank : NoBlank text) :
    ∃ consumed, text = consumed ++ stop ∧ TermStop stop consumed := by
  cases readTerm_succ_eq_iff.mp h with
  | noName hno => exact ⟨[], rfl, .noName hno hblank⟩
  | inFirst hname hw hw' hinner hfirst =>
    simp only [List.length_append, List.length_cons] at hlength
    obtain ⟨consumed, rfl, hstop⟩ := hdepth.term hfirst (by omega) hinner
    exact ⟨_, by simp, .inFirst hname hw hw' hstop⟩
  | inOthers hname hw hw' _ hfirst hothers =>
    obtain ⟨front, rfl, htext⟩ := (faithful depth).term hfirst
    simp only [List.length_append, List.length_cons] at hlength
    obtain ⟨consumed, rfl, hstop⟩ := hdepth.arguments hothers (by omega)
    exact ⟨_, by simp, .inOthers hname hw hw' htext hstop⟩

theorem Stopping.readArguments_succ (hdepth : Stopping depth)
    (h : readArguments (depth + 1) text = .error stop) (hlength : text.length < depth + 1) :
    ∃ consumed, text = consumed ++ stop ∧ ArgumentsStop stop consumed := by
  cases readArguments_succ_eq_iff.mp h with
  | here hw hstop => exact ⟨_, rfl, .here hw hstop⟩
  | inNext hw hw' hstart hnext =>
    simp only [List.length_append, List.length_cons] at hlength
    obtain ⟨consumed, rfl, hstop⟩ :=
      hdepth.term hnext (by omega) (noBlank_of_startsWithName hstart)
    exact ⟨_, by simp, .inNext hw hw' (hstop.ne_nil hstart) hstop⟩
  | inOthers hw hw' _ hnext hothers =>
    obtain ⟨front, rfl, htext⟩ := (faithful depth).term hnext
    simp only [List.length_append, List.length_cons] at hlength
    obtain ⟨consumed, rfl, hstop⟩ := hdepth.arguments hothers (by omega)
    exact ⟨_, by simp, .inOthers hw hw' htext hstop⟩

theorem stopping (depth : Nat) : Stopping depth := by
  induction depth with
  | zero =>
    constructor
    · intro text stop _ hlength
      cases hlength
    · intro text stop _ hlength
      cases hlength
  | succ depth ih => exact ⟨ih.readTerm_succ, ih.readArguments_succ⟩

end Depth

def StopsIn {α : Type} (read : Nat → List Char → Reading α)
    (Q : List Char → List Char → Prop) : Prop :=
  ∀ {depth text stop}, read depth text = .error stop → text.length < depth → NoBlank text →
    ∃ consumed, text = consumed ++ stop ∧ Q stop consumed

theorem stopsIn_term : StopsIn readTerm TermStop := (stopping _).term

theorem stopsIn_literal : StopsIn readLiteral LiteralStop := by
  intro depth text stop h hlength hblank
  cases readLiteral_eq_iff.mp h with
  | inPositive _ ht =>
    obtain ⟨consumed, hconsumed, hstop⟩ := stopsIn_term ht hlength hblank
    exact ⟨consumed, hconsumed, .positive hstop⟩
  | inNegative hsign hw hinner ht =>
    simp only [List.length_cons, List.length_append] at hlength
    obtain ⟨consumed, rfl, hstop⟩ := stopsIn_term ht (by omega) hinner
    exact ⟨_, by simp, .negative hsign hw hstop⟩

theorem Stop.ofRest_append (consumed rest : List Char) :
    ofRest (consumed ++ rest) rest = ⟨consumed, rest⟩ := by
  simp [ofRest]

section Whole

variable {α : Type} {read : Nat → List Char → Reading α} {P : List Char → α → Prop}
variable {Q : List Char → List Char → Prop} (hread : Reads read P) (hstops : StopsIn read Q)
include hread hstops

theorem halt_of_readAll_eq_error {text stop : List Char} (h : readAll read text = .error stop) :
    ∃ consumed, text = consumed ++ stop ∧ Halt P Q stop consumed := by
  cases readAll_eq_iff.mp h with
  | within hw hinner herror =>
    obtain ⟨consumed, rfl, hstop⟩ := hstops herror (by rw [List.length_append]; omega) hinner
    exact ⟨_, by simp, .within hw hstop⟩
  | after hw _ hok hw' hstop hne =>
    obtain ⟨front, rfl, hvalue⟩ := hread.sound hok
    exact ⟨_, by simp, .after hw hvalue hw' hne hstop⟩

/-- A text that cannot be parsed shows nothing, or its fault is that of a place where it halts. -/
theorem halt_of_parseWith_eq_error {input : String} {fault : Fault}
    (h : parseWith read input = .error fault) :
    fault = .empty ∨ ∃ s : Stop, input.toList = s.consumed ++ s.rest ∧
      Halt P Q s.rest s.consumed ∧ fault = s.fault input := by
  rcases parseWith_eq_error_iff.mp h with ⟨-, hempty⟩ | ⟨-, rest, herror, hfault⟩
  · exact Or.inl hempty
  · obtain ⟨consumed, hconsumed, hhalt⟩ := halt_of_readAll_eq_error hread hstops herror
    refine Or.inr ⟨⟨consumed, rest⟩, hconsumed, hhalt, ?_⟩
    rw [hfault, hconsumed, Stop.ofRest_append]

end Whole

end Clausal.Text
