import Clausal.Proofs.Grammar

/-!
# Readings case by case

For each reader a relation between texts and what one call makes of them, told from the shape of the
text and from the readings of its parts. No other module opens the readers.
-/

namespace Clausal.Text

set_option autoImplicit false

/-- A property that some value has, and no other than `a`, describes `a`. -/
theorem eq_iff_of_exists {α : Type} {a b : α} {P : α → Prop} (hunique : ∀ {b}, P b → a = b)
    (hexists : ∃ b, P b) : a = b ↔ P b := by
  constructor
  · intro h
    obtain ⟨b', hb'⟩ := hexists
    rwa [← h, hunique hb']
  · exact hunique

section Splitting

theorem exists_blanks_append (text : List Char) :
    ∃ w rest, text = w ++ rest ∧ Blanks w ∧ NoBlank rest := by
  refine ⟨text.takeWhile isBlank, text.dropWhile isBlank, ?_, ?_, ?_⟩
  · exact List.takeWhile_append_dropWhile.symm
  · exact List.all_eq_true.mp List.all_takeWhile
  · intro c hc
    have hhead := List.head?_dropWhile_not isBlank text
    rw [hc] at hhead
    exact hhead

theorem exists_name_append {text : List Char} (h : startsWithName text = true) :
    ∃ name rest, text = name ++ rest ∧ IsName name ∧ startsWithName rest = false := by
  refine ⟨text.takeWhile isNameChar, text.dropWhile isNameChar, ?_, ⟨?_, ?_⟩, ?_⟩
  · exact List.takeWhile_append_dropWhile.symm
  · cases text with
    | nil => cases h
    | cons c text =>
      have hc : isNameChar c = true := h
      rw [List.takeWhile_cons_of_pos hc]
      exact List.cons_ne_nil _ _
  · exact List.all_eq_true.mp List.all_takeWhile
  · have hhead := List.head?_dropWhile_not isNameChar text
    cases hdrop : text.dropWhile isNameChar with
    | nil => rfl
    | cons c rest =>
      rw [hdrop] at hhead
      simpa [startsWithName] using hhead

theorem IsName.not_isEmpty {name : List Char} (h : IsName name) : ¬ name.isEmpty = true :=
  fun hempty => h.ne_nil (List.isEmpty_iff.mp hempty)

theorem takeWhile_name_append {name rest : List Char} (hname : IsName name)
    (hrest : startsWithName rest = false) : (name ++ rest).takeWhile isNameChar = name := by
  rw [List.takeWhile_append_of_pos hname.chars]
  cases rest with
  | nil => simp
  | cons c rest =>
    have hc : ¬ isNameChar c = true := Bool.eq_false_iff.mp hrest
    rw [List.takeWhile_cons_of_neg hc, List.append_nil]

theorem dropWhile_name_append {name rest : List Char} (hname : IsName name)
    (hrest : startsWithName rest = false) : (name ++ rest).dropWhile isNameChar = rest := by
  rw [List.dropWhile_append_of_pos hname.chars]
  cases rest with
  | nil => rfl
  | cons c rest => exact List.dropWhile_cons_of_neg (Bool.eq_false_iff.mp hrest)

end Splitting

/-- Of a term and the arguments after it, either one stops or both are read. -/
theorem sequel_cases (depth : Nat) (text : List Char) :
    (∃ stop, readTerm depth text = .error stop) ∨
    (∃ t rest stop, readTerm depth text = .ok (t, rest) ∧
      readArguments depth rest = .error stop) ∨
    ∃ t rest ts rest', readTerm depth text = .ok (t, rest) ∧
      readArguments depth rest = .ok (ts, rest') := by
  cases hterm : readTerm depth text with
  | error stop => exact Or.inl ⟨stop, rfl⟩
  | ok p =>
    obtain ⟨t, rest⟩ := p
    right
    cases hothers : readArguments depth rest with
    | error stop => exact Or.inl ⟨t, rest, stop, rfl, hothers⟩
    | ok q => exact Or.inr ⟨t, rest, q.1, q.2, rfl, hothers⟩

section Terms

/-- What comes of reading a term, told from readings one call deeper. -/
inductive TermReading (depth : Nat) : List Char → Reading Term → Prop where
  | noName {text : List Char} : startsWithName text = false → TermReading depth text (.error text)
  | bare {name rest : List Char} : IsName name → Ends rest →
    TermReading depth (name ++ rest) (.ok (.ofName (String.ofList name), rest))
  | inFirst {name w w' inner stop : List Char} :
    IsName name → Blanks w → Blanks w' → NoBlank inner → readTerm depth inner = .error stop →
    TermReading depth (name ++ (w ++ '(' :: (w' ++ inner))) (.error stop)
  | inOthers {name w w' inner rest stop : List Char} {t : Term} :
    IsName name → Blanks w → Blanks w' → NoBlank inner → readTerm depth inner = .ok (t, rest) →
    readArguments depth rest = .error stop →
    TermReading depth (name ++ (w ++ '(' :: (w' ++ inner))) (.error stop)
  | app {name w w' inner rest rest' : List Char} {t : Term} {ts : List Term} :
    IsName name → Blanks w → Blanks w' → NoBlank inner → readTerm depth inner = .ok (t, rest) →
    readArguments depth rest = .ok (ts, rest') →
    TermReading depth (name ++ (w ++ '(' :: (w' ++ inner)))
      (.ok (.compound (String.ofList name) (t :: ts), rest'))

variable {depth : Nat} {text : List Char} {r : Reading Term}

theorem readTerm_of_noName (h : startsWithName text = false) (depth : Nat) :
    readTerm depth text = .error text := by
  cases depth with
  | zero => rfl
  | succ depth =>
    cases text with
    | nil => rfl
    | cons c text =>
      have hempty : (c :: text).takeWhile isNameChar = [] :=
        List.takeWhile_cons_of_neg (Bool.eq_false_iff.mp h)
      rw [readTerm, hempty]
      rfl

theorem readTerm_bare {name rest : List Char} (hname : IsName name) (hrest : Ends rest) :
    readTerm (depth + 1) (name ++ rest) = .ok (.ofName (String.ofList name), rest) := by
  simp only [readTerm, takeWhile_name_append hname hrest.noName,
    dropWhile_name_append hname hrest.noName, if_neg hname.not_isEmpty]
  split
  · exact absurd ‹_› (hrest.noArguments _)
  · rfl

theorem readTerm_open {name w w' inner : List Char} (hname : IsName name) (hw : Blanks w)
    (hw' : Blanks w') (hinner : NoBlank inner) :
    readTerm (depth + 1) (name ++ (w ++ '(' :: (w' ++ inner))) =
      (readTerm depth inner).bind fun first => (readArguments depth first.2).bind fun others =>
        .ok (.compound (String.ofList name) (first.1 :: others.1), others.2) := by
  have hopen : startsWithName (w ++ '(' :: (w' ++ inner)) = false :=
    startsWithName_blanks_append hw (isNameChar_punctuation '(' (by simp))
  have hskip : skipBlanks (w ++ '(' :: (w' ++ inner)) = '(' :: (w' ++ inner) :=
    skipBlanks_append_cons hw rfl
  simp only [readTerm, takeWhile_name_append hname hopen, dropWhile_name_append hname hopen,
    if_neg hname.not_isEmpty, hskip, skipBlanks_append hw' hinner]
  rcases sequel_cases depth inner with ⟨stop, hfirst⟩ | ⟨t, rest, stop, hfirst, hothers⟩ |
    ⟨t, rest, ts, rest', hfirst, hothers⟩
  · simp only [hfirst, Except.bind]
  · simp only [hfirst, hothers, Except.bind]
  · simp only [hfirst, hothers, Except.bind]

theorem TermReading.eq (h : TermReading depth text r) : readTerm (depth + 1) text = r := by
  cases h with
  | noName hno => exact readTerm_of_noName hno _
  | bare hname hrest => exact readTerm_bare hname hrest
  | inFirst hname hw hw' hinner hfirst =>
    simp only [readTerm_open hname hw hw' hinner, hfirst, Except.bind]
  | inOthers hname hw hw' hinner hfirst hothers =>
    simp only [readTerm_open hname hw hw' hinner, hfirst, hothers, Except.bind]
  | app hname hw hw' hinner hfirst hothers =>
    simp only [readTerm_open hname hw hw' hinner, hfirst, hothers, Except.bind]

theorem exists_termReading_open {name w inner : List Char} (hname : IsName name) (hw : Blanks w) :
    ∃ r, TermReading depth (name ++ (w ++ '(' :: inner)) r := by
  obtain ⟨w', inner, rfl, hw', hinner⟩ := exists_blanks_append inner
  rcases sequel_cases depth inner with ⟨stop, hfirst⟩ | ⟨t, rest, stop, hfirst, hothers⟩ |
    ⟨t, rest, ts, rest', hfirst, hothers⟩
  · exact ⟨_, .inFirst hname hw hw' hinner hfirst⟩
  · exact ⟨_, .inOthers hname hw hw' hinner hfirst hothers⟩
  · exact ⟨_, .app hname hw hw' hinner hfirst hothers⟩

theorem exists_termReading (depth : Nat) (text : List Char) : ∃ r, TermReading depth text r := by
  cases hstart : startsWithName text with
  | false => exact ⟨_, .noName hstart⟩
  | true =>
    obtain ⟨name, rest, rfl, hname, hrest⟩ := exists_name_append hstart
    by_cases hopen : ∃ inner, skipBlanks rest = '(' :: inner
    · obtain ⟨inner, hinner⟩ := hopen
      obtain ⟨w, rest, rfl, hw, hblank⟩ := exists_blanks_append rest
      rw [skipBlanks_append hw hblank] at hinner
      subst hinner
      exact exists_termReading_open hname hw
    · exact ⟨_, .bare hname ⟨hrest, not_exists.mp hopen⟩⟩

theorem readTerm_succ_eq_iff : readTerm (depth + 1) text = r ↔ TermReading depth text r :=
  eq_iff_of_exists TermReading.eq (exists_termReading depth text)

end Terms

section Arguments

/-- Neither the end of the arguments nor another one follows. -/
structure NoFurther (rest : List Char) : Prop where
  noBlank : NoBlank rest
  noClose : ∀ after, rest ≠ ')' :: after
  noNext : ∀ after, rest = ',' :: after → startsWithName (skipBlanks after) = false

theorem noFurther_of_comma {w rest : List Char} (hw : Blanks w) (hblank : NoBlank rest)
    (hrest : startsWithName rest = false) : NoFurther (',' :: (w ++ rest)) where
  noBlank := by
    intro c hc
    cases hc
    rfl
  noClose := by simp
  noNext := by
    intro after hafter
    cases hafter
    rwa [skipBlanks_append hw hblank]

inductive ArgumentsReading (depth : Nat) : List Char → Reading (List Term) → Prop where
  | close {w rest : List Char} : Blanks w →
    ArgumentsReading depth (w ++ ')' :: rest) (.ok ([], rest))
  | here {w stop : List Char} : Blanks w → NoFurther stop →
    ArgumentsReading depth (w ++ stop) (.error stop)
  | inNext {w w' inner stop : List Char} :
    Blanks w → Blanks w' → startsWithName inner = true → readTerm depth inner = .error stop →
    ArgumentsReading depth (w ++ ',' :: (w' ++ inner)) (.error stop)
  | inOthers {w w' inner rest stop : List Char} {t : Term} :
    Blanks w → Blanks w' → startsWithName inner = true → readTerm depth inner = .ok (t, rest) →
    readArguments depth rest = .error stop →
    ArgumentsReading depth (w ++ ',' :: (w' ++ inner)) (.error stop)
  | comma {w w' inner rest rest' : List Char} {t : Term} {ts : List Term} :
    Blanks w → Blanks w' → startsWithName inner = true → readTerm depth inner = .ok (t, rest) →
    readArguments depth rest = .ok (ts, rest') →
    ArgumentsReading depth (w ++ ',' :: (w' ++ inner)) (.ok (t :: ts, rest'))

variable {depth : Nat} {text : List Char} {r : Reading (List Term)}

theorem readArguments_of_noFurther {w stop : List Char} (hw : Blanks w) (h : NoFurther stop) :
    readArguments (depth + 1) (w ++ stop) = .error stop := by
  rw [readArguments, skipBlanks_append hw h.noBlank]
  split
  · exact absurd rfl (h.noClose _)
  · rw [if_neg (Bool.eq_false_iff.mp (h.noNext _ rfl))]
  · rfl

theorem readArguments_comma {w w' inner : List Char} (hw : Blanks w) (hw' : Blanks w')
    (hinner : startsWithName inner = true) :
    readArguments (depth + 1) (w ++ ',' :: (w' ++ inner)) =
      (readTerm depth inner).bind fun next => (readArguments depth next.2).bind fun others =>
        .ok (next.1 :: others.1, others.2) := by
  have hskip : skipBlanks (w ++ ',' :: (w' ++ inner)) = ',' :: (w' ++ inner) :=
    skipBlanks_append_cons hw rfl
  simp only [readArguments, hskip, skipBlanks_of_startsWithName hw' hinner, if_pos hinner]
  rcases sequel_cases depth inner with ⟨stop, hnext⟩ | ⟨t, rest, stop, hnext, hothers⟩ |
    ⟨t, rest, ts, rest', hnext, hothers⟩
  · simp only [hnext, Except.bind]
  · simp only [hnext, hothers, Except.bind]
  · simp only [hnext, hothers, Except.bind]

theorem ArgumentsReading.eq (h : ArgumentsReading depth text r) :
    readArguments (depth + 1) text = r := by
  cases h with
  | close hw =>
    rw [readArguments, skipBlanks_append_cons hw rfl]
    rfl
  | here hw hstop => exact readArguments_of_noFurther hw hstop
  | inNext hw hw' hinner hnext =>
    simp only [readArguments_comma hw hw' hinner, hnext, Except.bind]
  | inOthers hw hw' hinner hnext hothers =>
    simp only [readArguments_comma hw hw' hinner, hnext, hothers, Except.bind]
  | comma hw hw' hinner hnext hothers =>
    simp only [readArguments_comma hw hw' hinner, hnext, hothers, Except.bind]

theorem exists_argumentsReading_comma {w w' inner : List Char} (hw : Blanks w) (hw' : Blanks w')
    (hinner : startsWithName inner = true) :
    ∃ r, ArgumentsReading depth (w ++ ',' :: (w' ++ inner)) r := by
  rcases sequel_cases depth inner with ⟨stop, hnext⟩ | ⟨t, rest, stop, hnext, hothers⟩ |
    ⟨t, rest, ts, rest', hnext, hothers⟩
  · exact ⟨_, .inNext hw hw' hinner hnext⟩
  · exact ⟨_, .inOthers hw hw' hinner hnext hothers⟩
  · exact ⟨_, .comma hw hw' hinner hnext hothers⟩

theorem exists_argumentsReading (depth : Nat) (text : List Char) :
    ∃ r, ArgumentsReading depth text r := by
  obtain ⟨w, stop, rfl, hw, hstop⟩ := exists_blanks_append text
  by_cases hclose : ∃ after, stop = ')' :: after
  · obtain ⟨after, rfl⟩ := hclose
    exact ⟨_, .close hw⟩
  by_cases hnext : ∃ after, stop = ',' :: after ∧ startsWithName (skipBlanks after) = true
  · obtain ⟨after, rfl, hstart⟩ := hnext
    obtain ⟨w', inner, rfl, hw', hinner⟩ := exists_blanks_append after
    rw [skipBlanks_append hw' hinner] at hstart
    exact exists_argumentsReading_comma hw hw' hstart
  · refine ⟨_, .here hw ⟨hstop, not_exists.mp hclose, ?_⟩⟩
    intro after hafter
    exact Bool.eq_false_iff.mpr fun hstart => hnext ⟨after, hafter, hstart⟩

theorem readArguments_succ_eq_iff :
    readArguments (depth + 1) text = r ↔ ArgumentsReading depth text r :=
  eq_iff_of_exists ArgumentsReading.eq (exists_argumentsReading depth text)

end Arguments

section Literals

theorem isNegation_iff {c : Char} : isNegation c = true ↔ c = '¬' ∨ c = '~' := by
  simp [isNegation]

def NoSign (text : List Char) : Prop := ∀ c, text.head? = some c → isNegation c = false

theorem startsWithName_sign {sign : Char} (hsign : sign = '¬' ∨ sign = '~') (rest : List Char) :
    startsWithName (sign :: rest) = false := by
  rcases hsign with rfl | rfl
  · exact isNameChar_punctuation '¬' (by simp)
  · exact isNameChar_punctuation '~' (by simp)

theorem noSign_of_startsWithName {text : List Char} (h : startsWithName text = true) :
    NoSign text := by
  intro c hc
  cases text with
  | nil => cases hc
  | cons d text =>
    cases hc
    refine Bool.eq_false_iff.mpr fun hsign => ?_
    rw [startsWithName_sign (isNegation_iff.mp hsign)] at h
    cases h

/-- A literal is read through its term, and stops where that stops. -/
inductive LiteralReading (depth : Nat) : List Char → Reading Literal → Prop where
  | positive {text rest : List Char} {t : Term} :
    NoSign text → readTerm depth text = .ok (t, rest) →
    LiteralReading depth text (.ok (⟨true, t⟩, rest))
  | negative {sign : Char} {w inner rest : List Char} {t : Term} :
    sign = '¬' ∨ sign = '~' → Blanks w → NoBlank inner → readTerm depth inner = .ok (t, rest) →
    LiteralReading depth (sign :: (w ++ inner)) (.ok (⟨false, t⟩, rest))
  | inPositive {text stop : List Char} :
    NoSign text → readTerm depth text = .error stop → LiteralReading depth text (.error stop)
  | inNegative {sign : Char} {w inner stop : List Char} :
    sign = '¬' ∨ sign = '~' → Blanks w → NoBlank inner → readTerm depth inner = .error stop →
    LiteralReading depth (sign :: (w ++ inner)) (.error stop)

variable {depth : Nat} {text : List Char} {r : Reading Literal}

theorem readLiteral_of_noSign (h : NoSign text) (depth : Nat) :
    readLiteral depth text = (readTerm depth text).map (fun r => (⟨true, r.1⟩, r.2)) := by
  cases text with
  | nil =>
    rw [readTerm_of_noName rfl]
    rfl
  | cons c text => exact if_neg (Bool.eq_false_iff.mp (h c rfl))

theorem readLiteral_negative {sign : Char} {w inner : List Char} (hsign : sign = '¬' ∨ sign = '~')
    (hw : Blanks w) (hinner : NoBlank inner) (depth : Nat) :
    readLiteral depth (sign :: (w ++ inner)) =
      (readTerm depth inner).map (fun r => (⟨false, r.1⟩, r.2)) := by
  rw [readLiteral, if_pos (isNegation_iff.mpr hsign), skipBlanks_append hw hinner]

theorem LiteralReading.eq (h : LiteralReading depth text r) : readLiteral depth text = r := by
  cases h with
  | positive hsign ht => rw [readLiteral_of_noSign hsign, ht, Except.map]
  | negative hsign hw hinner ht => rw [readLiteral_negative hsign hw hinner, ht, Except.map]
  | inPositive hsign ht => rw [readLiteral_of_noSign hsign, ht, Except.map]
  | inNegative hsign hw hinner ht => rw [readLiteral_negative hsign hw hinner, ht, Except.map]

theorem exists_literalReading (depth : Nat) (text : List Char) :
    ∃ r, LiteralReading depth text r := by
  by_cases hsign : NoSign text
  · cases ht : readTerm depth text with
    | error stop => exact ⟨_, .inPositive hsign ht⟩
    | ok p => exact ⟨_, .positive hsign ht⟩
  · obtain ⟨sign, text, rfl, hnegation⟩ : ∃ sign rest, text = sign :: rest ∧
        isNegation sign = true := by
      cases text with
      | nil => exact absurd (fun c hc => nomatch hc) hsign
      | cons c text => exact ⟨c, text, rfl, by simpa [NoSign] using hsign⟩
    obtain ⟨w, inner, rfl, hw, hinner⟩ := exists_blanks_append text
    cases ht : readTerm depth inner with
    | error stop => exact ⟨_, .inNegative (isNegation_iff.mp hnegation) hw hinner ht⟩
    | ok p => exact ⟨_, .negative (isNegation_iff.mp hnegation) hw hinner ht⟩

theorem readLiteral_eq_iff : readLiteral depth text = r ↔ LiteralReading depth text r :=
  eq_iff_of_exists LiteralReading.eq (exists_literalReading depth text)

end Literals

section Wholes

variable {α : Type} {read : Nat → List Char → Reading α}

/-- A whole text is its value with blanks around it, or reading stops in the value or after it. -/
inductive WholeReading (read : Nat → List Char → Reading α) :
    List Char → Except (List Char) α → Prop where
  | padded {w inner w' : List Char} {value : α} :
    Blanks w → NoBlank inner → read ((w ++ inner).length + 1) inner = .ok (value, w') →
    Blanks w' → WholeReading read (w ++ inner) (.ok value)
  | within {w inner stop : List Char} :
    Blanks w → NoBlank inner → read ((w ++ inner).length + 1) inner = .error stop →
    WholeReading read (w ++ inner) (.error stop)
  | after {w inner w' stop : List Char} {value : α} :
    Blanks w → NoBlank inner → read ((w ++ inner).length + 1) inner = .ok (value, w' ++ stop) →
    Blanks w' → NoBlank stop → stop ≠ [] → WholeReading read (w ++ inner) (.error stop)

variable {text : List Char} {r : Except (List Char) α}

theorem WholeReading.eq (h : WholeReading read text r) : readAll read text = r := by
  cases h with
  | @padded w inner w' value hw hinner hread hw' =>
    have hend : skipBlanks (w' ++ []) = [] := skipBlanks_append hw' (by simp [NoBlank])
    rw [List.append_nil] at hend
    simp only [readAll, skipBlanks_append hw hinner, hread, hend]
  | within hw hinner hread => simp only [readAll, skipBlanks_append hw hinner, hread]
  | after hw hinner hread hw' hstop hne =>
    simp only [readAll, skipBlanks_append hw hinner, hread, skipBlanks_append hw' hstop]

theorem exists_wholeReading (read : Nat → List Char → Reading α) (text : List Char) :
    ∃ r, WholeReading read text r := by
  obtain ⟨w, inner, rfl, hw, hinner⟩ := exists_blanks_append text
  cases hread : read ((w ++ inner).length + 1) inner with
  | error stop => exact ⟨_, .within hw hinner hread⟩
  | ok p =>
    obtain ⟨value, rest⟩ := p
    obtain ⟨w', stop, rfl, hw', hstop⟩ := exists_blanks_append rest
    by_cases hne : stop = []
    · rw [hne, List.append_nil] at hread
      exact ⟨_, .padded hw hinner hread hw'⟩
    · exact ⟨_, .after hw hinner hread hw' hstop hne⟩

theorem readAll_eq_iff : readAll read text = r ↔ WholeReading read text r :=
  eq_iff_of_exists WholeReading.eq (exists_wholeReading read text)

theorem parseWith_eq_ok_iff_readAll {input : String} {value : α} :
    parseWith read input = .ok value ↔
      ¬ input.toList.all isWhiteSpace = true ∧ readAll read input.toList = .ok value := by
  unfold parseWith
  split
  · simp [*]
  · cases readAll read input.toList with
    | ok v => simp [*]
    | error stop => simp

theorem parseWith_eq_error_iff {input : String} {fault : Fault} :
    parseWith read input = .error fault ↔
      (input.toList.all isWhiteSpace = true ∧ fault = .empty) ∨
      (¬ input.toList.all isWhiteSpace = true ∧ ∃ rest, readAll read input.toList = .error rest ∧
        fault = (Stop.ofRest input.toList rest).fault input) := by
  unfold parseWith
  split
  · simp [*, eq_comm]
  · cases readAll read input.toList with
    | ok v => simp [*]
    | error stop => simp [*, eq_comm]

end Wholes

end Clausal.Text
