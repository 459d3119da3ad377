import Clausal.Proofs.Stops

/-!
# Parentheses

The nesting of a text is the number of parentheses that it opens and does not close. A closing
parenthesis stops reading in two situations only: right after an opening one, and with nothing
open. So a text that is called unbalanced is.
-/

namespace Clausal.Text

set_option autoImplicit false

def nesting (text : List Char) : Int := text.count '(' - text.count ')'

section Nesting

@[simp] theorem nesting_nil : nesting [] = 0 := rfl

theorem nesting_append (text text' : List Char) :
    nesting (text ++ text') = nesting text + nesting text' := by
  simp only [nesting, List.count_append]
  omega

theorem nesting_open (text : List Char) : nesting ('(' :: text) = nesting text + 1 := by
  simp only [nesting, List.count_cons]
  simp
  omega

theorem nesting_close (text : List Char) : nesting (')' :: text) = nesting text - 1 := by
  simp only [nesting, List.count_cons]
  simp
  omega

theorem nesting_cons {c : Char} (hopen : c ≠ '(') (hclose : c ≠ ')') (text : List Char) :
    nesting (c :: text) = nesting text := by
  simp [nesting, hopen, hclose]

theorem nesting_comma (text : List Char) : nesting (',' :: text) = nesting text :=
  nesting_cons (by decide) (by decide) text

theorem nesting_sign {sign : Char} (hsign : sign = '¬' ∨ sign = '~') (text : List Char) :
    nesting (sign :: text) = nesting text := by
  rcases hsign with rfl | rfl <;> exact nesting_cons (by decide) (by decide) text

theorem nesting_of_not_mem {text : List Char} (hopen : '(' ∉ text) (hclose : ')' ∉ text) :
    nesting text = 0 := by
  rw [nesting, List.count_eq_zero.mpr hopen, List.count_eq_zero.mpr hclose]
  rfl

theorem Blanks.nesting_eq {w : List Char} (h : Blanks w) : nesting w = 0 := by
  apply nesting_of_not_mem
  · intro hmem
    cases h '(' hmem
  · intro hmem
    cases h ')' hmem

theorem IsName.nesting_eq {name : List Char} (h : IsName name) : nesting name = 0 := by
  apply nesting_of_not_mem
  · intro hmem
    have hchar := h.chars '(' hmem
    rw [isNameChar_punctuation '(' (by simp)] at hchar
    cases hchar
  · intro hmem
    have hchar := h.chars ')' hmem
    rw [isNameChar_punctuation ')' (by simp)] at hchar
    cases hchar

mutual

theorem TermText.nesting_eq {text : List Char} {t : Term} (h : TermText text t) :
    nesting text = 0 := by
  cases h with
  | var hname _ => exact hname.nesting_eq
  | const hname _ => exact hname.nesting_eq
  | app hname hw hw' hfirst hothers =>
    simp only [nesting_append, nesting_open, hname.nesting_eq, hw.nesting_eq, hw'.nesting_eq,
      hfirst.nesting_eq, hothers.nesting_eq]
    omega

/-- The arguments after the first one close the parenthesis in front of it. -/
theorem ArgumentsText.nesting_eq {text : List Char} {ts : List Term} (h : ArgumentsText text ts) :
    nesting text = -1 := by
  cases h with
  | close hw =>
    simp only [nesting_append, nesting_close, hw.nesting_eq, nesting_nil]
    omega
  | comma hw hw' hnext hothers =>
    simp only [nesting_append, nesting_comma, hw.nesting_eq, hw'.nesting_eq, hnext.nesting_eq,
      hothers.nesting_eq]
    omega

end

mutual

theorem TermStop.nesting_pos {rest : List Char} :
    ∀ {consumed : List Char}, TermStop rest consumed → consumed = [] ∨ 0 < nesting consumed
  | _, .noName _ _ => Or.inl rfl
  | _, .inFirst hname hw hw' hstop => by
    right
    simp only [nesting_append, nesting_open, hname.nesting_eq, hw.nesting_eq, hw'.nesting_eq]
    rcases hstop.nesting_pos with hnil | hpos
    · rw [hnil, nesting_nil]
      omega
    · omega
  | _, .inOthers hname hw hw' hfirst hstop => by
    have hnonneg := hstop.nesting_nonneg
    right
    simp only [nesting_append, nesting_open, hname.nesting_eq, hw.nesting_eq, hw'.nesting_eq,
      hfirst.nesting_eq]
    omega

theorem ArgumentsStop.nesting_nonneg {rest : List Char} :
    ∀ {consumed : List Char}, ArgumentsStop rest consumed → 0 ≤ nesting consumed
  | _, .here hw _ => Int.le_of_eq hw.nesting_eq.symm
  | _, .inNext hw hw' hne hstop => by
    have hpos := hstop.nesting_pos.resolve_left hne
    simp only [nesting_append, nesting_comma, hw.nesting_eq, hw'.nesting_eq]
    omega
  | _, .inOthers hw hw' hnext hstop => by
    have hnonneg := hstop.nesting_nonneg
    simp only [nesting_append, nesting_comma, hw.nesting_eq, hw'.nesting_eq, hnext.nesting_eq]
    omega

end

theorem Stop.isOpen_iff {s : Stop} : s.isOpen = true ↔ 0 < nesting s.consumed := by
  simp only [isOpen, decide_eq_true_eq, nesting]
  omega

end Nesting

section Closing

/-- Only blanks follow the last opening parenthesis. -/
def JustOpened (consumed : List Char) : Prop := ∃ front w, consumed = front ++ '(' :: w ∧ Blanks w

theorem Blanks.justOpened {w : List Char} (h : Blanks w) : JustOpened ('(' :: w) := ⟨[], w, rfl, h⟩

theorem JustOpened.append {consumed : List Char} (h : JustOpened consumed) (front : List Char) :
    JustOpened (front ++ consumed) := by
  obtain ⟨front', w, rfl, hw⟩ := h
  exact ⟨front ++ front', w, by simp, hw⟩

theorem JustOpened.cons {consumed : List Char} (h : JustOpened consumed) (c : Char) :
    JustOpened (c :: consumed) :=
  h.append [c]

mutual

theorem TermStop.at_close {after : List Char} :
    ∀ {consumed : List Char}, TermStop (')' :: after) consumed → consumed = [] ∨ JustOpened consumed
  | _, .noName _ _ => Or.inl rfl
  | _, .inFirst _ _ hw' hstop => by
    right
    rcases hstop.at_close with hnil | hopened
    · rw [hnil, List.append_nil]
      exact (hw'.justOpened.append _).append _
    · exact (((hopened.append _).cons '(').append _).append _
  | _, .inOthers _ _ _ _ hstop =>
    Or.inr (((((hstop.at_close.append _).append _).cons '(').append _).append _)

theorem ArgumentsStop.at_close {after : List Char} :
    ∀ {consumed : List Char}, ArgumentsStop (')' :: after) consumed → JustOpened consumed
  | _, .here _ hrest => absurd rfl (hrest.noClose after)
  | _, .inNext _ _ hne hstop =>
    (((hstop.at_close.resolve_left hne).append _).cons ',').append _
  | _, .inOthers _ _ _ hstop => (((hstop.at_close.append _).append _).cons ',').append _

end

theorem LiteralStop.at_close {consumed after : List Char}
    (h : LiteralStop (')' :: after) consumed) : nesting consumed = 0 ∨ JustOpened consumed := by
  cases h with
  | positive hstop =>
    rcases hstop.at_close with rfl | hopened
    · exact Or.inl rfl
    · exact Or.inr hopened
  | @negative sign w consumed hsign hw hstop =>
    rcases hstop.at_close with rfl | hopened
    · left
      rw [List.append_nil, nesting_sign hsign, hw.nesting_eq]
    · exact Or.inr ((hopened.append w).cons sign)

theorem trimEnd_append_cons {front w : List Char} {c : Char} (hw : Blanks w)
    (hc : isWhiteSpace c = false) : trimEnd (front ++ c :: w) = front ++ [c] := by
  have hwhite : ∀ d ∈ w.reverse, isWhiteSpace d = true :=
    fun d hd => isWhiteSpace_of_isBlank (hw d (List.mem_reverse.mp hd))
  have hstop : ¬ isWhiteSpace c = true := Bool.eq_false_iff.mp hc
  unfold trimEnd
  rw [List.reverse_append, List.reverse_cons, List.append_assoc,
    List.dropWhile_append_of_pos hwhite, List.singleton_append, List.dropWhile_cons_of_neg hstop]
  simp

theorem JustOpened.follows {s : Stop} (h : JustOpened s.consumed) {p : Char → Bool}
    (hp : p '(' = true) : s.follows p = true := by
  obtain ⟨front, w, hconsumed, hw⟩ := h
  unfold Stop.follows Stop.before
  rw [hconsumed, trimEnd_append_cons hw (by decide), List.getLast?_concat]
  exact hp

end Closing

/-- A fault of balance is found at the end with something open, or at a closing parenthesis that
does not take the place of an argument. -/
theorem Stop.of_fault_eq_unbalanced {s : Stop} {input text : String}
    (h : s.fault input = .unbalanced text) :
    text = input ∧ ((s.rest = [] ∧ s.isOpen = true) ∨
      ∃ after, s.rest = ')' :: after ∧ s.follows (fun d => d = '(' || d = ',') = false) := by
  unfold fault at h
  split at h
  · split at h
    · cases h
      exact ⟨rfl, Or.inl ⟨‹_›, ‹_›⟩⟩
    · cases h
  · rename_i c after hrest
    split at h
    · cases h
    split at h
    · rename_i hclose
      split at h
      · cases h
      · cases h
        exact ⟨rfl, Or.inr ⟨after, hclose ▸ hrest, Bool.eq_false_iff.mpr ‹_›⟩⟩
    · repeat' split at h
      all_goals cases h

/-- No part at the front closes more parentheses than it opens, and all are closed in the end. -/
structure Balanced (text : List Char) : Prop where
  opened : ∀ front, front <+: text → front.count ')' ≤ front.count '('
  closed : text.count '(' = text.count ')'

section Faults

variable {α : Type} {read : Nat → List Char → Reading α} {P : List Char → α → Prop}
variable {Q : List Char → List Char → Prop}

theorem Halt.at_close (hP : ∀ {text value}, P text value → nesting text = 0)
    (hQ : ∀ {consumed after}, Q (')' :: after) consumed →
      nesting consumed = 0 ∨ JustOpened consumed)
    {consumed after : List Char} (h : Halt P Q (')' :: after) consumed) :
    nesting consumed = 0 ∨ JustOpened consumed := by
  cases h with
  | @within w consumed hw hstop =>
    rcases hQ hstop with hzero | hopened
    · left
      rw [nesting_append, hw.nesting_eq, hzero]
      rfl
    · exact Or.inr (hopened.append w)
  | after hw hvalue hw' _ _ =>
    left
    rw [nesting_append, nesting_append, hw.nesting_eq, hP hvalue, hw'.nesting_eq]
    rfl

theorem not_balanced_of_stop {s : Stop} {input text : String}
    (hinput : input.toList = s.consumed ++ s.rest)
    (hclose : ∀ after, s.rest = ')' :: after → nesting s.consumed = 0 ∨ JustOpened s.consumed)
    (h : s.fault input = .unbalanced text) : text = input ∧ ¬ Balanced input.toList := by
  obtain ⟨htext, hend | ⟨after, hrest, hfollows⟩⟩ := Stop.of_fault_eq_unbalanced h
  · refine ⟨htext, fun hbalanced => ?_⟩
    have hclosed := hbalanced.closed
    have hopen := Stop.isOpen_iff.mp hend.2
    rw [hinput, hend.1, List.append_nil] at hclosed
    unfold nesting at hopen
    omega
  · refine ⟨htext, fun hbalanced => ?_⟩
    rcases hclose after hrest with hzero | hopened
    · -- the part up to the closing parenthesis has one of them too many
      have hfront : s.consumed ++ [')'] <+: input.toList := by
        rw [hinput, hrest]
        exact ⟨after, by simp⟩
      have hle := hbalanced.opened _ hfront
      have hnesting : nesting (s.consumed ++ [')']) = -1 := by
        rw [nesting_append, nesting_close, hzero]
        rfl
      unfold nesting at hnesting
      omega
    · rw [hopened.follows rfl] at hfollows
      cases hfollows

theorem not_balanced_of_parseWith (hread : Reads read P) (hstops : StopsIn read Q)
    (hP : ∀ {text value}, P text value → nesting text = 0)
    (hQ : ∀ {consumed after}, Q (')' :: after) consumed →
      nesting consumed = 0 ∨ JustOpened consumed)
    {input text : String} (h : parseWith read input = .error (.unbalanced text)) :
    text = input ∧ ¬ Balanced input.toList := by
  rcases halt_of_parseWith_eq_error hread hstops h with hempty | ⟨s, hinput, hhalt, hfault⟩
  · cases hempty
  · apply not_balanced_of_stop hinput _ hfault.symm
    intro after hrest
    rw [hrest] at hhalt
    exact hhalt.at_close hP hQ

end Faults

theorem LiteralText.nesting_eq {text : List Char} {l : Literal} (h : LiteralText text l) :
    nesting text = 0 := by
  cases h with
  | positive ht => exact ht.nesting_eq
  | negative hsign hw ht =>
    rw [nesting_sign hsign, nesting_append, hw.nesting_eq, ht.nesting_eq]
    rfl

/-- Parsing blames the balance of parentheses only for a text in which they do not balance. -/
theorem not_balanced_of_parse_eq_unbalanced {input text : String}
    (h : Literal.parse input = .error (.unbalanced text) ∨
      Term.parse input = .error (.unbalanced text)) :
    text = input ∧ ¬ Balanced input.toList := by
  rcases h with h | h
  · exact not_balanced_of_parseWith reads_literal stopsIn_literal LiteralText.nesting_eq
      LiteralStop.at_close h
  · refine not_balanced_of_parseWith reads_term stopsIn_term TermText.nesting_eq ?_ h
    intro consumed after hstop
    exact LiteralStop.at_close (.positive hstop)

theorem not_balanced_of_parse_eq_unbalanced_loves :
    (Literal.parse "¬Loves(x, mother(x)" = .error (.unbalanced "¬Loves(x, mother(x)") ∧
      ¬ Balanced "¬Loves(x, mother(x)".toList) ∧
    (Term.parse "mother(x) )" = .error (.unbalanced "mother(x) )") ∧
      ¬ Balanced "mother(x) )".toList) := by
  have hliteral : Literal.parse "¬Loves(x, mother(x)" =
    .error (.unbalanced "¬Loves(x, mother(x)") := rfl
  have hterm : Term.parse "mother(x) )" = .error (.unbalanced "mother(x) )") := rfl
  exact ⟨⟨hliteral, (not_balanced_of_parse_eq_unbalanced (Or.inl hliteral)).2⟩,
    hterm, (not_balanced_of_parse_eq_unbalanced (Or.inr hterm)).2⟩

end Clausal.Text
