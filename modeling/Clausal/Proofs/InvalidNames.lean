import Mathlib.Data.List.Chain
import Mathlib.Data.List.DropRight
import Clausal.Proofs.Parentheses

/-!
# Names that are called invalid

The name that is called invalid is put together around the place where reading stopped. Mostly it
holds a character that no name can have. It need not if reading stopped at white space other than
blanks, or at a name right after the closing parenthesis of an argument.
-/

namespace Clausal.Text

set_option autoImplicit false

section Separation

theorem ArgumentsText.close_suffix :
    ∀ {text : List Char} {ts : List Term}, ArgumentsText text ts → [')'] <:+ text
  | _, _, .close _ => List.suffix_append _ _
  | _, _, @ArgumentsText.comma w w' next _ _ _ _ _ _ hothers =>
    hothers.close_suffix.trans ⟨w ++ ',' :: (w' ++ next), by simp⟩

/-- In the text, the rest comes right after a blank or a closing parenthesis. -/
def Parted (text rest : List Char) : Prop :=
  ∃ c, (isBlank c = true ∨ c = ')') ∧ c :: rest <:+ text

theorem Parted.of_suffix {text text' rest : List Char} (h : Parted text rest)
    (hsuffix : text <:+ text') : Parted text' rest := by
  obtain ⟨c, hc, hrest⟩ := h
  exact ⟨c, hc, hrest.trans hsuffix⟩

theorem eq_or_parted_of_blanks {w : List Char} (hw : Blanks w) (rest : List Char) :
    rest = w ++ rest ∨ Parted (w ++ rest) rest := by
  rcases List.eq_nil_or_concat' w with rfl | ⟨w, c, rfl⟩
  · exact Or.inl rfl
  · exact Or.inr ⟨c, Or.inl (hw c (by simp)), w, by simp⟩

theorem suffix_of_open (name w w' inner : List Char) :
    inner <:+ name ++ (w ++ '(' :: (w' ++ inner)) :=
  ⟨name ++ (w ++ '(' :: w'), by simp⟩

theorem suffix_of_comma (w w' inner : List Char) : inner <:+ w ++ ',' :: (w' ++ inner) :=
  ⟨w ++ ',' :: w', by simp⟩

variable {depth : Nat} {text rest stop : List Char}

theorem parted_of_readArguments_eq_ok {ts : List Term}
    (h : readArguments depth text = .ok (ts, rest)) : Parted text rest := by
  obtain ⟨front, rfl, htext⟩ := (faithful depth).arguments h
  obtain ⟨front', rfl⟩ := htext.close_suffix
  exact ⟨')', Or.inr rfl, front', by simp⟩

/-- A name is read to its end, so another one can follow a term only after its parenthesis. -/
theorem parted_of_readTerm_eq_ok {t : Term} (h : readTerm depth text = .ok (t, rest))
    (hstart : startsWithName rest = true) : Parted text rest := by
  cases depth with
  | zero => cases h
  | succ depth =>
    cases readTerm_succ_eq_iff.mp h with
    | bare _ hrest =>
      rw [hrest.noName] at hstart
      cases hstart
    | app _ _ _ _ hfirst hothers =>
      obtain ⟨front, rfl, -⟩ := (faithful depth).term hfirst
      apply (parted_of_readArguments_eq_ok hothers).of_suffix
      exact (List.suffix_append front _).trans (suffix_of_open _ _ _ _)

/-- Readings of this depth stop at a name only where something parts it from the one before. -/
structure Parting (depth : Nat) : Prop where
  term : ∀ {text stop}, readTerm depth text = .error stop → text.length < depth →
    startsWithName stop = true → Parted text stop
  arguments : ∀ {text stop}, readArguments depth text = .error stop → text.length < depth →
    startsWithName stop = true → stop = text ∨ Parted text stop

theorem Parting.sequel {t : Term} (hdepth : Parting depth)
    (hterm : readTerm depth text = .ok (t, rest)) (hothers : readArguments depth rest = .error stop)
    (hlength : text.length < depth) (hstart : startsWithName stop = true) : Parted text stop := by
  obtain ⟨front, hfront, -⟩ := (faithful depth).term hterm
  have hrest : rest <:+ text := ⟨front, hfront.symm⟩
  have hle := hrest.length_le
  rcases hdepth.arguments hothers (by omega) hstart with rfl | hparted
  · exact parted_of_readTerm_eq_ok hterm hstart
  · exact hparted.of_suffix hrest

theorem Parting.readTerm_succ (hdepth : Parting depth)
    (h : readTerm (depth + 1) text = .error stop) (hlength : text.length < depth + 1)
    (hstart : startsWithName stop = true) : Parted text stop := by
  cases readTerm_succ_eq_iff.mp h with
  | noName hno =>
    rw [hno] at hstart
    cases hstart
  | inFirst _ _ _ _ hfirst =>
    simp only [List.length_append, List.length_cons] at hlength
    exact (hdepth.term hfirst (by omega) hstart).of_suffix (suffix_of_open _ _ _ _)
  | inOthers _ _ _ _ hfirst hothers =>
    simp only [List.length_append, List.length_cons] at hlength
    exact (hdepth.sequel hfirst hothers (by omega) hstart).of_suffix (suffix_of_open _ _ _ _)

theorem Parting.readArguments_succ (hdepth : Parting depth)
    (h : readArguments (depth + 1) text = .error stop) (hlength : text.length < depth + 1)
    (hstart : startsWithName stop = true) : stop = text ∨ Parted text stop := by
  cases readArguments_succ_eq_iff.mp h with
  | here hw _ => exact eq_or_parted_of_blanks hw stop
  | inNext _ _ _ hnext =>
    simp only [List.length_append, List.length_cons] at hlength
    exact Or.inr ((hdepth.term hnext (by omega) hstart).of_suffix (suffix_of_comma _ _ _))
  | inOthers _ _ _ hnext hothers =>
    simp only [List.length_append, List.length_cons] at hlength
    exact Or.inr ((hdepth.sequel hnext hothers (by omega) hstart).of_suffix
      (suffix_of_comma _ _ _))

theorem parting (depth : Nat) : Parting depth := by
  induction depth with
  | zero =>
    constructor
    · intro text stop _ hlength
      cases hlength
    · intro text stop _ hlength
      cases hlength
  | succ depth ih => exact ⟨ih.readTerm_succ, ih.readArguments_succ⟩

/-- A reader leaves or stops at a name only where something parts it from what was read. -/
structure PartsNames {α : Type} (read : Nat → List Char → Reading α) : Prop where
  yields : ∀ {depth text value rest}, read depth text = .ok (value, rest) →
    startsWithName rest = true → Parted text rest
  stops : ∀ {depth text stop}, read depth text = .error stop → text.length < depth →
    startsWithName stop = true → Parted text stop

theorem partsNames_term : PartsNames readTerm where
  yields := parted_of_readTerm_eq_ok
  stops := (parting _).term

theorem partsNames_literal : PartsNames readLiteral where
  yields := by
    intro depth text l rest h hstart
    cases readLiteral_eq_iff.mp h with
    | positive _ ht => exact parted_of_readTerm_eq_ok ht hstart
    | @negative sign w _ _ _ _ _ _ ht =>
      exact (parted_of_readTerm_eq_ok ht hstart).of_suffix (List.suffix_append (sign :: w) _)
  stops := by
    intro depth text stop h hlength hstart
    cases readLiteral_eq_iff.mp h with
    | inPositive _ ht => exact (parting depth).term ht hlength hstart
    | @inNegative sign w _ _ _ _ _ ht =>
      simp only [List.length_cons, List.length_append] at hlength
      exact ((parting depth).term ht (by omega) hstart).of_suffix
        (List.suffix_append (sign :: w) _)

theorem PartsNames.readAll {α : Type} {read : Nat → List Char → Reading α}
    {P : List Char → α → Prop} (hparts : PartsNames read) (hread : Reads read P)
    (h : readAll read text = .error stop) (hstart : startsWithName stop = true) :
    Parted text stop := by
  cases readAll_eq_iff.mp h with
  | @within w inner _ _ _ herror =>
    apply Parted.of_suffix _ (List.suffix_append w inner)
    exact hparts.stops herror (by rw [List.length_append]; omega) hstart
  | @after w inner w' _ value _ _ hok hw' _ _ =>
    apply Parted.of_suffix _ (List.suffix_append w inner)
    rcases eq_or_parted_of_blanks hw' stop with heq | hparted
    · rw [← heq] at hok
      exact hparts.yields hok hstart
    · obtain ⟨front, rfl, -⟩ := hread.sound hok
      exact hparted.of_suffix (List.suffix_append front _)

end Separation

section Anatomy

def EndsWithout (p : Char → Bool) (text : List Char) : Prop :=
  ∀ c, text.getLast? = some c → p c = false

theorem endsWithout_rdropWhile (p : Char → Bool) (text : List Char) :
    EndsWithout p (text.rdropWhile p) := by
  intro c hc
  have hhead := List.head?_dropWhile_not p text.reverse
  rw [List.rdropWhile, List.getLast?_reverse] at hc
  rw [hc] at hhead
  exact hhead

/-- What was read before a stop, cut where the misspelt name starts and where the white space at
the end starts. -/
structure Stop.Cut (s : Stop) (front run gap : List Char) : Prop where
  consumed_eq : s.consumed = front ++ (run ++ gap)
  endsWithout_front : EndsWithout isNameChar front
  chars_run : ∀ c ∈ run, isNameChar c = true
  endsWithout_before : EndsWithout isWhiteSpace (front ++ run)
  white_gap : ∀ c ∈ gap, isWhiteSpace c = true

/-- What follows a stop up to the next white space or punctuation. -/
def Stop.token (s : Stop) : List Char := s.rest.takeWhile (fun c => !endsName c)

def Stop.afterToken (s : Stop) : List Char := s.rest.dropWhile (fun c => !endsName c)

theorem Stop.token_append_afterToken (s : Stop) : s.token ++ s.afterToken = s.rest :=
  List.takeWhile_append_dropWhile

theorem Stop.endsName_of_head?_afterToken {s : Stop} {c : Char}
    (h : s.afterToken.head? = some c) : endsName c = true := by
  have hhead := List.head?_dropWhile_not (fun c => !endsName c) s.rest
  rw [show s.rest.dropWhile (fun c => !endsName c) = s.afterToken from rfl, h] at hhead
  simpa using hhead

theorem Stop.exists_cut (s : Stop) :
    ∃ front run gap, s.Cut front run gap ∧ s.misspelt = run ++ (gap ++ s.token) := by
  have hwhite : s.before ++ s.consumed.rtakeWhile isWhiteSpace = s.consumed :=
    List.rdropWhile_append_rtakeWhile
  have hname : s.before.rdropWhile isNameChar ++ s.before.rtakeWhile isNameChar = s.before :=
    List.rdropWhile_append_rtakeWhile
  have hconsumed : s.consumed = s.before.rdropWhile isNameChar ++
      (s.before.rtakeWhile isNameChar ++ s.consumed.rtakeWhile isWhiteSpace) := by
    rw [← List.append_assoc, hname, hwhite]
  refine ⟨_, _, _, ⟨hconsumed, endsWithout_rdropWhile isNameChar s.before, ?_, ?_, ?_⟩, ?_⟩
  · intro c hc
    exact List.mem_rtakeWhile_imp hc
  · rw [hname]
    exact endsWithout_rdropWhile isWhiteSpace s.consumed
  · intro c hc
    exact List.mem_rtakeWhile_imp hc
  · have hdrop : s.consumed.drop (s.before.reverse.dropWhile isNameChar).length =
        s.before.rtakeWhile isNameChar ++ s.consumed.rtakeWhile isWhiteSpace := by
      rw [← List.length_reverse]
      exact (congrArg (List.drop _) hconsumed).trans List.drop_left
    rw [misspelt, hdrop, List.append_assoc, token]

theorem Stop.Cut.gap_eq_nil {s : Stop} {front run gap : List Char} (h : s.Cut front run gap)
    (hchars : ∀ c ∈ gap, isNameChar c = true) : gap = [] := by
  refine List.eq_nil_iff_forall_not_mem.mpr fun c hc => ?_
  have hchar := hchars c hc
  rw [isNameChar_of_isWhiteSpace (h.white_gap c hc)] at hchar
  cases hchar

end Anatomy

section Faults

theorem Stop.of_fault_eq_invalidName {s : Stop} {input name text : String}
    (h : s.fault input = .invalidName name text) :
    text = input ∧ name = String.ofList s.misspelt ∧ ∃ c after, s.rest = c :: after ∧
      endsName c = isWhiteSpace c ∧
      (isNameChar c = true → s.isOpen = true ∨ s.follows isNameChar = true) := by
  unfold fault at h
  split at h
  · split at h <;> cases h
  · rename_i c after hrest
    split at h
    · cases h
    split at h
    · split at h <;> cases h
    rename_i hclose
    split at h
    · split at h <;> cases h
    rename_i hcomma
    split at h
    · split at h <;> cases h
    rename_i hopen
    split at h
    · cases h
    rename_i hplace
    cases h
    refine ⟨rfl, rfl, c, after, hrest, by simp [endsName, hclose, hcomma, hopen], fun hc => ?_⟩
    by_contra hnone
    obtain ⟨hclosed, hfollows⟩ := not_or.mp hnone
    simp [hc, hclosed, hfollows] at hplace

/-- Nothing is wrong with the name between the two parts of the text. -/
inductive Unfounded (front name back : List Char) : Prop where
  /-- White space other than blanks follows the name, or stands where a name is missing. -/
  | atWhiteSpace {c : Char} {after : List Char} :
    back = c :: after → isWhiteSpace c = true → isBlank c = false →
    EndsWithout isNameChar front → (∀ d ∈ name, isNameChar d = true) → Unfounded front name back
  /-- The name follows a complete argument without a comma between them. -/
  | afterClose {front' : List Char} :
    front = front' ++ [')'] → 0 < nesting front → IsName name →
    (∀ d, back.head? = some d → Stop.endsName d = true) → Unfounded front name back

variable {s : Stop} {front run gap : List Char}

theorem Parted.exists_last {consumed rest : List Char} (h : Parted (consumed ++ rest) rest) :
    ∃ front c, consumed = front ++ [c] ∧ (isBlank c = true ∨ c = ')') := by
  obtain ⟨c, hc, front, hfront⟩ := h
  rw [List.append_cons, List.append_left_inj] at hfront
  exact ⟨front, c, hfront.symm, hc⟩

theorem Stop.Cut.after_close (h : s.Cut front run [])
    (hparted : Parted (s.consumed ++ s.rest) s.rest) :
    run = [] ∧ ∃ front', front = front' ++ [')'] := by
  obtain ⟨front', c, hlast, hc⟩ := hparted.exists_last
  have hbefore := h.endsWithout_before
  have hconsumed := h.consumed_eq
  rw [List.append_nil, hlast] at hconsumed
  rw [← hconsumed] at hbefore
  have hclose : c = ')' := by
    refine hc.resolve_left fun hblank => ?_
    have hwhite := hbefore c List.getLast?_concat
    rw [isWhiteSpace_of_isBlank hblank] at hwhite
    cases hwhite
  rcases List.eq_nil_or_concat' run with hrun | ⟨run', d, hrun⟩
  · refine ⟨hrun, front', ?_⟩
    rw [hrun, List.append_nil] at hconsumed
    rw [← hconsumed, hclose]
  · -- the run would end with the parenthesis
    rw [hrun, ← List.append_assoc] at hconsumed
    have hcd : c = d := List.singleton_inj.mp (List.append_inj' hconsumed rfl).2
    have hd : isNameChar d = true := h.chars_run d (by simp [hrun])
    rw [← hcd, hclose, isNameChar_punctuation ')' (by simp)] at hd
    cases hd

theorem Stop.follows_of_close {p : Char → Bool} (h : s.consumed = front ++ [')']) :
    s.follows p = p ')' := by
  unfold follows before
  rw [h, trimEnd_append_cons blanks_nil (by decide), List.getLast?_concat]
  rfl

/-- White space at the stop leaves the run of name characters before it. -/
theorem Stop.Cut.unfounded_of_white (h : s.Cut front run []) {c : Char} {after : List Char}
    (hrest : s.rest = c :: after) (hends : endsName c = true) (hwhite : isWhiteSpace c = true)
    (hblank : NoBlank s.rest) : Unfounded front (run ++ s.token) s.afterToken := by
  have hnone : s.token = [] := by simp [token, hrest, hends]
  have hall := s.token_append_afterToken
  rw [hnone, List.nil_append] at hall
  rw [hnone, List.append_nil, hall]
  exact .atWhiteSpace hrest hwhite (hblank c (by rw [hrest]; rfl)) h.endsWithout_front h.chars_run

/-- A name right after the parenthesis is blamed as it stands. -/
theorem Stop.Cut.unfounded_of_name (h : s.Cut front run [])
    (hparted : Parted (s.consumed ++ s.rest) s.rest)
    (hplace : s.isOpen = true ∨ s.follows isNameChar = true) (hname : IsName s.token) :
    Unfounded front (run ++ s.token) s.afterToken := by
  obtain ⟨hrun, front', hfront⟩ := h.after_close hparted
  have hconsumed := h.consumed_eq
  rw [hrun, List.append_nil, List.append_nil] at hconsumed
  have hopen : s.isOpen = true := by
    refine hplace.resolve_right ?_
    rw [follows_of_close (hconsumed.trans hfront), isNameChar_punctuation ')' (by simp)]
    exact Bool.false_ne_true
  rw [hrun, List.nil_append]
  rw [isOpen_iff, hconsumed] at hopen
  exact .afterClose hfront hopen hname fun d => endsName_of_head?_afterToken

theorem Stop.misspelt_unfounded_or {c : Char} {after : List Char} (hrest : s.rest = c :: after)
    (hends : endsName c = isWhiteSpace c) (hblank : NoBlank s.rest)
    (hplace : isNameChar c = true → s.isOpen = true ∨ s.follows isNameChar = true)
    (hparted : startsWithName s.rest = true → Parted (s.consumed ++ s.rest) s.rest) :
    ∃ front back, s.consumed ++ s.rest = front ++ (s.misspelt ++ back) ∧
      ((∃ d ∈ s.misspelt, isNameChar d = false) ∨ Unfounded front s.misspelt back) := by
  obtain ⟨front, run, gap, hcut, hmisspelt⟩ := s.exists_cut
  refine ⟨front, s.afterToken, ?_, ?_⟩
  · rw [hmisspelt, hcut.consumed_eq]
    simp only [List.append_assoc, s.token_append_afterToken]
  by_cases hbad : ∃ d ∈ s.misspelt, isNameChar d = false
  · exact Or.inl hbad
  right
  have hchars : ∀ d ∈ run ++ (gap ++ s.token), isNameChar d = true := by
    simpa [hmisspelt] using hbad
  obtain rfl := hcut.gap_eq_nil fun d hd => hchars d (by simp [hd])
  rw [List.nil_append] at hmisspelt
  rw [hmisspelt]
  cases hwhite : isWhiteSpace c with
  | true => exact hcut.unfounded_of_white hrest (hends.trans hwhite) hwhite hblank
  | false =>
    have hmem : c ∈ s.token := by simp [token, hrest, hends, hwhite]
    have hname : IsName s.token :=
      ⟨List.ne_nil_of_mem hmem, fun d hd => hchars d (by simp [hd])⟩
    have hc : isNameChar c = true := hname.chars c hmem
    exact hcut.unfounded_of_name (hparted (by rw [hrest]; exact hc)) (hplace hc) hname

theorem unfounded_or_of_parseWith {α : Type} {read : Nat → List Char → Reading α}
    {P : List Char → α → Prop} {Q : List Char → List Char → Prop}
    (hread : Reads read P) (hstops : StopsIn read Q)
    (hparts : PartsNames read) (hQ : ∀ {rest consumed}, Q rest consumed → NoBlank rest)
    {input name text : String} (h : parseWith read input = .error (.invalidName name text)) :
    text = input ∧ ∃ front back, input.toList = front ++ (name.toList ++ back) ∧
      ((∃ c ∈ name.toList, isNameChar c = false) ∨ Unfounded front name.toList back) := by
  rcases parseWith_eq_error_iff.mp h with ⟨-, hempty⟩ | ⟨-, rest, herror, hfault⟩
  · cases hempty
  obtain ⟨consumed, hinput, hhalt⟩ := halt_of_readAll_eq_error hread hstops herror
  have hparted := hparts.readAll hread herror
  rw [hinput] at hfault hparted ⊢
  rw [Stop.ofRest_append] at hfault
  obtain ⟨htext, rfl, c, after, hrest, hends, hplace⟩ :=
    Stop.of_fault_eq_invalidName hfault.symm
  refine ⟨htext, ?_⟩
  rw [String.toList_ofList]
  exact Stop.misspelt_unfounded_or hrest hends (hhalt.noBlank hQ) hplace hparted

end Faults

/-- Blanks are the only white space, and no name comes right after a closing parenthesis. -/
structure Plain (text : List Char) : Prop where
  white : ∀ c ∈ text, isWhiteSpace c = true → isBlank c = true
  apart : text.IsChain (fun c d => c = ')' → isNameChar d = false)

theorem Plain.not_unfounded {front name back : List Char} (h : Plain (front ++ (name ++ back))) :
    ¬ Unfounded front name back := by
  intro hname
  cases hname with
  | @atWhiteSpace c after hback hwhite hblank _ _ =>
    rw [h.white c (by simp [hback]) hwhite] at hblank
    cases hblank
  | @afterClose front' hfront _ hchars _ =>
    cases name with
    | nil => exact absurd rfl hchars.ne_nil
    | cons d name =>
      have hapart : (front' ++ ')' :: d :: (name ++ back)).IsChain
          (fun c d => c = ')' → isNameChar d = false) := by
        simpa [hfront] using h.apart
      have hd := (List.isChain_append_cons_cons.mp hapart).2.1 rfl
      rw [hchars.chars d List.mem_cons_self] at hd
      cases hd

/-- A name that parsing calls invalid is a piece of the text. It holds a character that no name can
have, unless it is cut off by white space other than blanks or comes right after the closing
parenthesis of an argument; a plain text has neither. -/
theorem parse_invalidName_unless_unfounded {input name text : String}
    (h : Literal.parse input = .error (.invalidName name text) ∨
      Term.parse input = .error (.invalidName name text)) :
    text = input ∧
    (∃ front back, input.toList = front ++ (name.toList ++ back) ∧
      ((∃ c ∈ name.toList, isNameChar c = false) ∨ Unfounded front name.toList back)) ∧
    (Plain input.toList → ∃ c ∈ name.toList, isNameChar c = false) := by
  have hcases : text = input ∧ ∃ front back, input.toList = front ++ (name.toList ++ back) ∧
      ((∃ c ∈ name.toList, isNameChar c = false) ∨ Unfounded front name.toList back) := by
    rcases h with h | h
    · exact unfounded_or_of_parseWith reads_literal stopsIn_literal partsNames_literal
        LiteralStop.noBlank h
    · exact unfounded_or_of_parseWith reads_term stopsIn_term partsNames_term TermStop.noBlank h
  obtain ⟨htext, front, back, hinput, hname⟩ := hcases
  refine ⟨htext, ⟨front, back, hinput, hname⟩, fun hplain => ?_⟩
  rw [hinput] at hplain
  exact hname.resolve_right hplain.not_unfounded

theorem plain_odia : Plain "Odia(Marco;Cesar)".toList where
  white := by
    have hall : "Odia(Marco;Cesar)".toList.all (fun c => !isWhiteSpace c) = true := by decide
    intro c hc hwhite
    simpa [hwhite] using List.all_eq_true.mp hall c hc
  apart := by decide

theorem parse_invalidName_unless_unfounded_odia :
    Literal.parse "Odia(Marco;Cesar)" = .error (.invalidName "Marco;Cesar" "Odia(Marco;Cesar)") ∧
    Plain "Odia(Marco;Cesar)".toList ∧ ∃ c ∈ "Marco;Cesar".toList, isNameChar c = false := by
  have hparse : Literal.parse "Odia(Marco;Cesar)" =
    .error (.invalidName "Marco;Cesar" "Odia(Marco;Cesar)") := rfl
  exact ⟨hparse, plain_odia, (parse_invalidName_unless_unfounded (Or.inl hparse)).2.2 plain_odia⟩

example : Literal.parse "\u00a0Marco" = .error (.invalidName "" "\u00a0Marco") := by
  decide +kernel

example : Term.parse "Amo(padre(x)Marco)" =
    .error (.invalidName "Marco" "Amo(padre(x)Marco)") := rfl

/-- A name can be called invalid without holding an invalid character. -/
theorem exists_valid_name_called_invalid :
    ¬ ∀ input name text : String,
      Literal.parse input = .error (.invalidName name text) ∨
        Term.parse input = .error (.invalidName name text) →
      text = input ∧ name ≠ "" ∧ name.toList <:+: input.toList ∧
        ∃ c ∈ name.toList, isNameChar c = false := by
  intro h
  have hparse : Literal.parse "Gran\u00a0Marco" =
      .error (.invalidName "Gran" "Gran\u00a0Marco") := by
    decide +kernel
  obtain ⟨-, -, -, c, hc, hchar⟩ := h _ _ _ (Or.inl hparse)
  have hvalid : "Gran".toList.all isNameChar = true := by decide
  rw [List.all_eq_true.mp hvalid c hc] at hchar
  cases hchar

end Clausal.Text
