import Clausal.Proofs.Parentheses
import Clausal.Proofs.RoundTrip

/-!
# Negated arguments

A slot is the place of an argument in a text, at any depth. If a negated argument is put in,
reading stops at the sign in the first slot of a list. In a later one it has turned back to the
comma, since no name follows, and it looks as if the argument were missing.
-/

namespace Clausal.Text

set_option autoImplicit false

inductive Rank where
  | first
  | later
deriving DecidableEq

namespace Rank

/-- The character at which reading stops. -/
def mark (sign : Char) : Rank → Char
  | first => sign
  | later => ','

/-- The fault that is told from there. -/
def fault (input : String) : Rank → Fault
  | first => .nestedNegation input
  | later => .emptyArgument input

end Rank

mutual

inductive TermSlot : Rank → List Char → List Char → Prop where
  | first {name w w' others : List Char} {ts : List Term} :
    IsName name → Blanks w → Blanks w' → ArgumentsText others ts →
    TermSlot .first (name ++ (w ++ '(' :: w')) others
  | inFirst {rank : Rank} {name w w' front back others : List Char} {ts : List Term} :
    IsName name → Blanks w → Blanks w' → TermSlot rank front back → ArgumentsText others ts →
    TermSlot rank (name ++ (w ++ '(' :: (w' ++ front))) (back ++ others)
  | inOthers {rank : Rank} {name w w' first front back : List Char} {t : Term} :
    IsName name → Blanks w → Blanks w' → TermText first t → ArgumentsSlot rank front back →
    TermSlot rank (name ++ (w ++ '(' :: (w' ++ (first ++ front)))) back

inductive ArgumentsSlot : Rank → List Char → List Char → Prop where
  | next {w w' others : List Char} {ts : List Term} :
    Blanks w → Blanks w' → ArgumentsText others ts →
    ArgumentsSlot .later (w ++ ',' :: w') others
  | inNext {rank : Rank} {w w' front back others : List Char} {ts : List Term} :
    Blanks w → Blanks w' → TermSlot rank front back → ArgumentsText others ts →
    ArgumentsSlot rank (w ++ ',' :: (w' ++ front)) (back ++ others)
  | inOthers {rank : Rank} {w w' next front back : List Char} {t : Term} :
    Blanks w → Blanks w' → TermText next t → ArgumentsSlot rank front back →
    ArgumentsSlot rank (w ++ ',' :: (w' ++ (next ++ front))) back

end

inductive LiteralSlot : Rank → List Char → List Char → Prop where
  | positive {rank : Rank} {front back : List Char} :
    TermSlot rank front back → LiteralSlot rank front back
  | negative {rank : Rank} {sign : Char} {w front back : List Char} :
    sign = '¬' ∨ sign = '~' → Blanks w → TermSlot rank front back →
    LiteralSlot rank (sign :: (w ++ front)) back

def PaddedSlot (S : Rank → List Char → List Char → Prop) (rank : Rank) (front back : List Char) :
    Prop :=
  ∃ w front' back' w', front = w ++ front' ∧ back = back' ++ w' ∧ Blanks w ∧ Blanks w' ∧
    S rank front' back'

theorem PaddedSlot.of_slot {S : Rank → List Char → List Char → Prop} {rank : Rank}
    {front back : List Char} (h : S rank front back) : PaddedSlot S rank front back :=
  ⟨[], front, back, [], rfl, by simp, blanks_nil, blanks_nil, h⟩

section Filling

mutual

theorem TermSlot.fill {text : List Char} {t : Term} (ht : TermText text t) :
    ∀ {rank front back}, TermSlot rank front back → ∃ u, TermText (front ++ (text ++ back)) u
  | _, _, _, .first hname hw hw' hothers =>
    ⟨_, by simpa using TermText.app hname hw hw' ht hothers⟩
  | _, _, _, .inFirst hname hw hw' hslot hothers => by
    obtain ⟨u, hu⟩ := hslot.fill ht
    exact ⟨_, by simpa using TermText.app hname hw hw' hu hothers⟩
  | _, _, _, .inOthers hname hw hw' hfirst hslot => by
    obtain ⟨us, hus⟩ := hslot.fill ht
    exact ⟨_, by simpa using TermText.app hname hw hw' hfirst hus⟩

theorem ArgumentsSlot.fill {text : List Char} {t : Term} (ht : TermText text t) :
    ∀ {rank front back}, ArgumentsSlot rank front back →
      ∃ us, ArgumentsText (front ++ (text ++ back)) us
  | _, _, _, .next hw hw' hothers => ⟨_, by simpa using ArgumentsText.comma hw hw' ht hothers⟩
  | _, _, _, .inNext hw hw' hslot hothers => by
    obtain ⟨u, hu⟩ := hslot.fill ht
    exact ⟨_, by simpa using ArgumentsText.comma hw hw' hu hothers⟩
  | _, _, _, .inOthers hw hw' hnext hslot => by
    obtain ⟨us, hus⟩ := hslot.fill ht
    exact ⟨_, by simpa using ArgumentsText.comma hw hw' hnext hus⟩

end

theorem LiteralSlot.fill {text : List Char} {t : Term} (ht : TermText text t) {rank : Rank}
    {front back : List Char} (h : LiteralSlot rank front back) :
    ∃ l, LiteralText (front ++ (text ++ back)) l := by
  cases h with
  | positive hslot =>
    obtain ⟨u, hu⟩ := hslot.fill ht
    exact ⟨_, .positive hu⟩
  | negative hsign hw hslot =>
    obtain ⟨u, hu⟩ := hslot.fill ht
    exact ⟨_, by simpa using LiteralText.negative hsign hw hu⟩

theorem PaddedSlot.fill {α : Type} {S : Rank → List Char → List Char → Prop}
    {P : List Char → α → Prop} {rank : Rank} {front back text : List Char}
    (hfill : ∀ {front back}, S rank front back → ∃ value, P (front ++ (text ++ back)) value)
    (h : PaddedSlot S rank front back) : ∃ value, Padded P (front ++ (text ++ back)) value := by
  obtain ⟨w, front', back', w', rfl, rfl, hw, hw', hslot⟩ := h
  obtain ⟨value, hvalue⟩ := hfill hslot
  exact ⟨value, w, _, w', by simp, hw, hw', hvalue⟩

end Filling

section Reading

theorem TermSlot.startsWithName_append {rank : Rank} {front back : List Char}
    (h : TermSlot rank front back) (rest : List Char) : startsWithName (front ++ rest) = true := by
  cases h with
  | first hname _ _ _ =>
    rw [List.append_assoc]
    exact hname.startsWithName_append _
  | inFirst hname _ _ _ _ =>
    rw [List.append_assoc]
    exact hname.startsWithName_append _
  | inOthers hname _ _ _ _ =>
    rw [List.append_assoc]
    exact hname.startsWithName_append _

theorem ArgumentsSlot.ends {rank : Rank} {front back : List Char}
    (h : ArgumentsSlot rank front back) (rest : List Char) : Ends (front ++ rest) := by
  cases h with
  | next hw _ _ =>
    rw [List.append_assoc]
    exact ends_of_comma hw _
  | inNext hw _ _ _ =>
    rw [List.append_assoc]
    exact ends_of_comma hw _
  | inOthers hw _ _ _ =>
    rw [List.append_assoc]
    exact ends_of_comma hw _

variable {sign : Char} (hsign : sign = '¬' ∨ sign = '~')
include hsign

theorem noBlank_sign (after : List Char) : NoBlank (sign :: after) := by
  intro c hc
  cases hc
  rcases hsign with rfl | rfl <;> decide

mutual

/-- Whatever comes after the sign, reading stops at the mark. -/
theorem TermSlot.readTerm_eq_error :
    ∀ {rank front back}, TermSlot rank front back → ∀ depth after, front.length < depth →
      ∃ stop, readTerm depth (front ++ sign :: after) = .error (rank.mark sign :: stop)
  | _, _, _, .first hname hw hw' _, depth + 1, after, _ => by
    refine ⟨after, ?_⟩
    simp only [List.append_assoc, List.cons_append]
    apply TermReading.eq
    apply TermReading.inFirst hname hw hw' (noBlank_sign hsign after)
    exact readTerm_of_noName (startsWithName_sign hsign after) depth
  | _, _, _, .inFirst hname hw hw' hslot _, depth + 1, after, hlength => by
    simp only [List.length_append, List.length_cons] at hlength
    obtain ⟨stop, hstop⟩ := hslot.readTerm_eq_error depth after (by omega)
    refine ⟨stop, ?_⟩
    simp only [List.append_assoc, List.cons_append]
    apply TermReading.eq
    exact .inFirst hname hw hw' (noBlank_of_startsWithName (hslot.startsWithName_append _)) hstop
  | _, _, _, .inOthers hname hw hw' hfirst hslot, depth + 1, after, hlength => by
    simp only [List.length_append, List.length_cons] at hlength
    obtain ⟨stop, hstop⟩ := hslot.readArguments_eq_error depth after (by omega)
    have hread := (thorough depth).term hfirst (hslot.ends (sign :: after)) (by omega)
    refine ⟨stop, ?_⟩
    simp only [List.append_assoc, List.cons_append]
    apply TermReading.eq
    exact .inOthers hname hw hw' (noBlank_of_startsWithName (hfirst.startsWithName_append _))
      hread hstop

theorem ArgumentsSlot.readArguments_eq_error :
    ∀ {rank front back}, ArgumentsSlot rank front back → ∀ depth after, front.length < depth →
      ∃ stop, readArguments depth (front ++ sign :: after) = .error (rank.mark sign :: stop)
  | _, _, _, @ArgumentsSlot.next _ w' _ _ hw hw' _, depth + 1, after, _ => by
    refine ⟨w' ++ sign :: after, ?_⟩
    simp only [List.append_assoc, List.cons_append]
    apply ArgumentsReading.eq
    exact .here hw (noFurther_of_comma hw' (noBlank_sign hsign after)
      (startsWithName_sign hsign after))
  | _, _, _, .inNext hw hw' hslot _, depth + 1, after, hlength => by
    simp only [List.length_append, List.length_cons] at hlength
    obtain ⟨stop, hstop⟩ := hslot.readTerm_eq_error depth after (by omega)
    have hstart := hslot.startsWithName_append (sign :: after)
    refine ⟨stop, ?_⟩
    simp only [List.append_assoc, List.cons_append]
    exact ArgumentsReading.eq (.inNext hw hw' hstart hstop)
  | _, _, _, .inOthers hw hw' hnext hslot, depth + 1, after, hlength => by
    simp only [List.length_append, List.length_cons] at hlength
    obtain ⟨stop, hstop⟩ := hslot.readArguments_eq_error depth after (by omega)
    have hread := (thorough depth).term hnext (hslot.ends (sign :: after)) (by omega)
    refine ⟨stop, ?_⟩
    simp only [List.append_assoc, List.cons_append]
    exact ArgumentsReading.eq (.inOthers hw hw' (hnext.startsWithName_append _) hread hstop)

end

end Reading

section Marks

/-- Reading the text comes to the mark with a list of arguments open, and stops there. -/
structure StopsAt {α : Type} (read : Nat → List Char → Reading α) (mark : Char)
    (text : List Char) : Prop where
  noBlank : NoBlank text
  stops : ∀ depth, text.length < depth → ∃ consumed stop, text = consumed ++ mark :: stop ∧
    0 < nesting consumed ∧ read depth text = .error (mark :: stop)

variable {rank : Rank} {sign : Char} {front back : List Char}
variable (hsign : sign = '¬' ∨ sign = '~')
include hsign

theorem TermSlot.stopsAt (h : TermSlot rank front back) (after : List Char) :
    StopsAt readTerm (rank.mark sign) (front ++ sign :: after) := by
  have hstart := h.startsWithName_append (sign :: after)
  refine ⟨noBlank_of_startsWithName hstart, ?_⟩
  intro depth hdepth
  have hlength : front.length < depth := by
    rw [List.length_append] at hdepth
    omega
  obtain ⟨stop, hstop⟩ := h.readTerm_eq_error hsign depth after hlength
  obtain ⟨consumed, hconsumed, hplace⟩ :=
    stopsIn_term hstop hdepth (noBlank_of_startsWithName hstart)
  rw [hconsumed] at hstart
  have hopen := hplace.nesting_pos.resolve_left (hplace.ne_nil hstart)
  exact ⟨consumed, stop, hconsumed, hopen, hstop⟩

theorem LiteralSlot.stopsAt (h : LiteralSlot rank front back) (after : List Char) :
    StopsAt readLiteral (rank.mark sign) (front ++ sign :: after) := by
  cases h with
  | positive hslot =>
    have hterm := hslot.stopsAt hsign after
    refine ⟨hterm.noBlank, ?_⟩
    intro depth hdepth
    obtain ⟨consumed, stop, htext, hopen, hread⟩ := hterm.stops depth hdepth
    refine ⟨consumed, stop, htext, hopen, ?_⟩
    apply LiteralReading.eq
    exact .inPositive (noSign_of_startsWithName (hslot.startsWithName_append _)) hread
  | @negative outer w front _ houter hw hslot =>
    have hterm := hslot.stopsAt hsign after
    refine ⟨noBlank_sign houter _, ?_⟩
    intro depth hdepth
    simp only [List.cons_append, List.append_assoc, List.length_cons, List.length_append] at hdepth
    obtain ⟨consumed, stop, htext, hopen, hread⟩ := hterm.stops depth (by simp; omega)
    refine ⟨outer :: (w ++ consumed), stop, by simp [htext], ?_, ?_⟩
    · rw [nesting_sign houter, nesting_append, hw.nesting_eq]
      omega
    · rw [List.cons_append, List.append_assoc]
      exact LiteralReading.eq (.inNegative houter hw hterm.noBlank hread)

theorem Stop.fault_of_mark {consumed : List Char} (hopen : 0 < nesting consumed)
    (stop : List Char) (input : String) :
    fault input ⟨consumed, rank.mark sign :: stop⟩ = rank.fault input := by
  have hisOpen : isOpen ⟨consumed, rank.mark sign :: stop⟩ = true := isOpen_iff.mpr hopen
  cases rank with
  | first => exact if_pos (isNegation_iff.mpr hsign)
  | later =>
    rw [Rank.mark] at hisOpen ⊢
    have hcomma : isNegation ',' = false := by decide
    simp [fault, hcomma, hisOpen, Rank.fault]

theorem StopsAt.parseWith_eq_error {α : Type} {read : Nat → List Char → Reading α}
    {input : String} {w text : List Char} (h : StopsAt read (rank.mark sign) text) (hw : Blanks w)
    (hinput : input.toList = w ++ text) : parseWith read input = .error (rank.fault input) := by
  have hlength : text.length < input.toList.length + 1 := by
    rw [hinput, List.length_append]
    omega
  obtain ⟨consumed, stop, htext, hopen, hread⟩ := h.stops _ hlength
  have hall : readAll read input.toList = .error (rank.mark sign :: stop) := by
    rw [hinput] at hread ⊢
    exact WholeReading.eq (.within hw h.noBlank hread)
  have hvisible : ¬ input.toList.all isWhiteSpace = true := by
    intro hwhite
    have hmark := List.all_eq_true.mp hwhite (rank.mark sign) (by simp [hinput, htext])
    cases rank with
    | first => rcases hsign with rfl | rfl <;> cases hmark
    | later => cases hmark
  have hplace : Stop.ofRest input.toList (rank.mark sign :: stop) =
      ⟨w ++ consumed, rank.mark sign :: stop⟩ := by
    rw [hinput, htext, ← List.append_assoc, Stop.ofRest_append]
  have hnesting : 0 < nesting (w ++ consumed) := by
    rw [nesting_append, hw.nesting_eq]
    omega
  refine parseWith_eq_error_iff.mpr (Or.inr ⟨hvisible, _, hall, ?_⟩)
  rw [hplace, Stop.fault_of_mark hsign hnesting]

end Marks

/-- A slot of a whole text, filled with a plain argument or with a negated one. -/
theorem PaddedSlot.parseWith {α : Type} {read : Nat → List Char → Reading α}
    {P : List Char → α → Prop} {S : Rank → List Char → List Char → Prop} (hread : Reads read P)
    {rank : Rank} {sign : Char} {t : Term} (hsign : sign = '¬' ∨ sign = '~')
    (hfill : ∀ {plain}, TermText plain t → ∀ {front back}, S rank front back →
      ∃ value, P (front ++ (plain ++ back)) value)
    (hstop : ∀ {front back}, S rank front back → ∀ after,
      StopsAt read (rank.mark sign) (front ++ sign :: after))
    {input : String} {front text back : List Char} (h : PaddedSlot S rank front back)
    (hinput : input.toList = front ++ (sign :: text ++ back)) :
    (∀ plain, TermText plain t →
      ∃ value, Text.parseWith read (String.ofList (front ++ (plain ++ back))) = .ok value) ∧
    Text.parseWith read input = .error (rank.fault input) := by
  constructor
  · intro plain hplain
    obtain ⟨value, hvalue⟩ := h.fill (hfill hplain)
    refine ⟨value, (parseWith_eq_ok_iff hread).mpr ?_⟩
    rwa [String.toList_ofList]
  · obtain ⟨w, front', back', w', rfl, rfl, hw, -, hslot⟩ := h
    apply (hstop hslot _).parseWith_eq_error hsign hw
    rw [hinput, List.append_assoc]
    rfl

/-- Take a text of the grammar and negate one of its arguments, at any depth. Parsing then finds
the misplaced negation if the argument is the first one of its list. If it comes later, parsing
reports an empty argument instead. -/
theorem parse_negated_argument {input : String} {rank : Rank} {front argument back : List Char}
    {t : Term} (hargument : LiteralText argument ⟨false, t⟩)
    (hinput : input.toList = front ++ (argument ++ back)) :
    (PaddedSlot LiteralSlot rank front back →
      (∀ plain, TermText plain t →
        ∃ l, Literal.parse (String.ofList (front ++ (plain ++ back))) = .ok l) ∧
      Literal.parse input = .error (rank.fault input)) ∧
    (PaddedSlot TermSlot rank front back →
      (∀ plain, TermText plain t →
        ∃ u, Term.parse (String.ofList (front ++ (plain ++ back))) = .ok u) ∧
      Term.parse input = .error (rank.fault input)) := by
  cases hargument with
  | negative hsign _ _ =>
    constructor
    · intro hslot
      exact hslot.parseWith reads_literal hsign (fun ht => LiteralSlot.fill ht)
        (LiteralSlot.stopsAt hsign) hinput
    · intro hslot
      exact hslot.parseWith reads_term hsign (fun ht => TermSlot.fill ht)
        (TermSlot.stopsAt hsign) hinput

section Example

theorem literalSlot_amo : LiteralSlot .first "¬Leal(x, amo(".toList ", Cesar))".toList :=
  .negative (Or.inl rfl) blanks_nil
    (.inOthers (isNameText_iff.mp (by decide : isNameText "Leal" = true)) blanks_nil blanks_nil
      (termText_chars (t := .var "x") (by decide))
      (.inNext blanks_nil blanks_space
        (.first (isNameText_iff.mp (by decide : isNameText "amo" = true)) blanks_nil blanks_nil
          (.comma blanks_nil blanks_space (termText_chars (t := .const "Cesar") (by decide))
            (.close blanks_nil)))
        (.close blanks_nil)))

theorem termSlot_leal : TermSlot .later "Leal(Marco, ".toList ")".toList :=
  .inOthers (isNameText_iff.mp (by decide : isNameText "Leal" = true)) blanks_nil blanks_nil
    (termText_chars (t := .const "Marco") (by decide))
    (.next blanks_nil blanks_space (.close blanks_nil))

theorem literalText_notCesar : LiteralText "~ Cesar".toList ⟨false, .const "Cesar"⟩ :=
  .negative (Or.inr rfl) blanks_space (termText_chars (t := .const "Cesar") (by decide))

theorem parse_negated_argument_notCesar :
    (LiteralText "~ Cesar".toList ⟨false, .const "Cesar"⟩ ∧
      PaddedSlot LiteralSlot .first "¬Leal(x, amo(".toList ", Cesar))".toList ∧
      Literal.parse "¬Leal(x, amo(~ Cesar, Cesar))" =
        .error (.nestedNegation "¬Leal(x, amo(~ Cesar, Cesar))")) ∧
    PaddedSlot TermSlot .later "Leal(Marco, ".toList ")".toList ∧
    Term.parse "Leal(Marco, ~ Cesar)" = .error (.emptyArgument "Leal(Marco, ~ Cesar)") := by
  have hliteral := PaddedSlot.of_slot literalSlot_amo
  have hterm := PaddedSlot.of_slot termSlot_leal
  exact ⟨⟨literalText_notCesar, hliteral,
    ((parse_negated_argument literalText_notCesar rfl).1 hliteral).2⟩, hterm,
    ((parse_negated_argument literalText_notCesar rfl).2 hterm).2⟩

/-- Not every negated argument is found to be one. -/
theorem exists_negated_argument_missed :
    ¬ ∀ (input : String) (rank : Rank) (front argument back : List Char) (t : Term),
      LiteralText argument ⟨false, t⟩ → input.toList = front ++ (argument ++ back) →
      PaddedSlot LiteralSlot rank front back →
      Literal.parse input = .error (.nestedNegation input) := by
  intro h
  have hfound := h "Leal(Marco, ~ Cesar)" .later "Leal(Marco, ".toList "~ Cesar".toList ")".toList
    (.const "Cesar") literalText_notCesar rfl (PaddedSlot.of_slot (.positive termSlot_leal))
  have hmissed : Literal.parse "Leal(Marco, ~ Cesar)" =
      .error (.emptyArgument "Leal(Marco, ~ Cesar)") := rfl
  rw [hmissed] at hfound
  cases hfound

end Example

end Clausal.Text
