import ScopeLisp.Proofs.Grammar.Reading

/-!
# Inputs that are not read

Which failure is reported for an input is decided by choices, which prefer the failure that got
furthest, and by repetitions, which take a soft failure of an element for the end of the elements.
The first character that is not blank settles the choice: after an opening parenthesis the term is
what the list is, failures included (`term_eq_list`), and otherwise it is what the atom is
(`term_eq_atom`). A soft failure inside a list only ends its elements, so the outermost list is the
one that is reported as not closed, at its first element that cannot be read. The failures of
malformed literals are fatal and come through from any depth.

* `Malformed`: the fatal failures (`malformed_of_term`).
* `term_eq_noAlternative_iff`: nothing is recognised exactly where nothing can begin
  (`BeginsNothing`).
* `term_eq_unclosed_iff`: where the end of a list is missed.
* `parse_failure_classified`: all the failures to read, and when they are reported.
-/

namespace ScopeLisp.Grammar

open Reader

/-! ## Malformed literals -/

/-- The failures of literals that cannot be anything else: a number that does not fit, a backslash
that makes no escape, a string without an end. -/
inductive Malformed : Failure → Prop
  | outOfRange (rest : List Char) :
    Malformed { cause := .numberOutOfRange, rest := some rest, fatal := true }
  | escape (escaped : Option Char) (rest : List Char) :
    Malformed { cause := .invalidEscape escaped, rest := some rest, fatal := true }
  | unterminated : Malformed { cause := .unterminatedString, rest := some [], fatal := true }

theorem Malformed.fatal {failure : Failure} (h : Malformed failure) : failure.fatal = true := by
  cases h <;> rfl

theorem Malformed.not_declines {p : Parser Term} {source : List Char} {failure : Failure}
    (h : Malformed failure) (hp : p source = .error (.failure failure)) : ¬ Declines p source := by
  rintro ⟨other, hother, hsoft⟩
  cases hp.symm.trans hother
  rw [h.fatal] at hsoft
  cases hsoft

theorem eq_error_of_map {α β : Type} {f : α → β} {outcome : Outcome α} {error : ReadError}
    (h : outcome.map (Parsed.map f) = .error error) : outcome = .error error := by
  cases outcome with
  | ok parsed => cases h
  | error e => exact congrArg Except.error (Except.error.inj h)

theorem malformed_of_stringBody {source : List Char} {failure : Failure}
    (h : stringBody source = .error (.failure failure)) : Malformed failure := by
  fun_induction stringBody source with
  | case1 =>
    cases h
    exact .unterminated
  | case2 => cases h
  | case3 =>
    cases h
    exact .escape none _
  | case4 =>
    cases h
    exact .escape (some _) _
  | case5 _ _ _ _ _ ih => exact ih (eq_error_of_map h)
  | case6 _ _ _ _ ih => exact ih (eq_error_of_map h)

/-! ## Atoms -/

/-- The parser reads an atom, or stops at a malformed literal, or does not begin. -/
def Settles (p : Parser Term) (source : List Char) : Prop :=
  (∃ parsed, p source = .ok parsed) ∨
  (∃ failure, Malformed failure ∧ p source = .error (.failure failure)) ∨
  ∃ cause, p source = failAt cause (skipBlanks source)

namespace Settles

variable {p : Parser Term} {source : List Char}

theorem balks (h : Settles p source) (hdeclines : Declines p source) : Balks p source := by
  rcases h with ⟨parsed, hok⟩ | ⟨failure, hmalformed, hfailure⟩ | ⟨cause, hfail⟩
  · exact absurd hok (hdeclines.ne_ok parsed)
  · exact absurd hdeclines (hmalformed.not_declines hfailure)
  · exact balks_of_failAt hfail (Nat.le_refl _)

theorem malformed (h : Settles p source) {failure : Failure}
    (hfailure : p source = .error (.failure failure)) (hfatal : failure.fatal = true) :
    Malformed failure := by
  rcases h with ⟨parsed, hok⟩ | ⟨other, hmalformed, hother⟩ | ⟨cause, hfail⟩
  · cases hok.symm.trans hfailure
  · cases hother.symm.trans hfailure
    exact hmalformed
  · cases hfail.symm.trans hfailure
    cases hfatal

end Settles

section Atom

variable {width : Width} {source : List Char}

theorem settles_number : Settles (number (.ok width)) source := by
  simp only [Settles, number]
  split
  · exact .inr (.inr ⟨_, rfl⟩)
  · split
    · exact .inl ⟨_, rfl⟩
    · exact .inr (.inl ⟨_, .outOfRange _, rfl⟩)

theorem settles_string : Settles string source := by
  rw [Settles, string]
  split
  · rename_i inside hsource
    cases hbody : stringBody inside with
    | ok parsed => exact .inl ⟨_, rfl⟩
    | error e =>
      cases e with
      | setting error => exact absurd hbody stringBody_ne_setting
      | failure failure => exact .inr (.inl ⟨failure, malformed_of_stringBody hbody, rfl⟩)
  · exact .inr (.inr ⟨_, rfl⟩)

theorem settles_literal : Settles literal source := by
  rw [Settles, literal]
  split
  · exact .inl ⟨_, rfl⟩
  · exact .inr (.inr ⟨_, rfl⟩)

theorem settles_identifier : Settles identifier source := by
  rw [Settles, identifier]
  split
  · rename_i hsource
    rw [hsource]
    exact .inr (.inr ⟨_, rfl⟩)
  · rename_i c rest hsource
    rw [hsource]
    split
    · exact .inr (.inr ⟨_, rfl⟩)
    · split
      · exact .inr (.inr ⟨_, rfl⟩)
      · exact .inl ⟨_, rfl⟩

theorem settles_of_mem {p : Parser Term}
    (hp : p ∈ [number (.ok width), string, literal, identifier]) : Settles p source := by
  simp only [List.mem_cons, List.not_mem_nil, or_false] at hp
  rcases hp with rfl | rfl | rfl | rfl
  · exact settles_number
  · exact settles_string
  · exact settles_literal
  · exact settles_identifier

theorem atom_eq_of_declines (h : Declines (atom (.ok width)) source) :
    atom (.ok width) source = failAt .noAlternative source := by
  have hparsers := declines_alternative_iff.mp h
  exact alternative_of_balks fun p hp => (settles_of_mem hp).balks (hparsers p hp)

theorem malformed_of_atom {failure : Failure}
    (h : atom (.ok width) source = .error (.failure failure)) (hfatal : failure.fatal = true) :
    Malformed failure := by
  obtain ⟨p, hp, hfailure⟩ := exists_of_alternative_fatal h hfatal
  exact (settles_of_mem hp).malformed hfailure hfatal

end Atom

/-! ## Atoms and lists -/

section Term

variable {width : Width} {source inside : List Char}

theorem list_of_not_open (h : (skipBlanks source).head? ≠ some '(') :
    list (.ok width) source = failAt .notAList (skipBlanks source) := by
  rw [list, listOf]
  split
  · rename_i inside hsource
    rw [hsource] at h
    exact absurd rfl h
  · rfl

/-- A list that is not read fails with one of its elements, or its end is missed. -/
theorem list_cases (h : skipBlanks source = '(' :: inside) :
    (∃ parsed, list (.ok width) source = .ok parsed) ∨
    (∃ error s, list (.ok width) source = .error error ∧ s.length < source.length ∧
      term (.ok width) s = .error error ∧ ¬ Declines (term (.ok width)) s) ∨
    ∃ terms after, Run (term (.ok width)) inside terms after ∧
      (skipBlanks after).head? ≠ some ')' ∧
      list (.ok width) source = failAt .unclosedList (skipBlanks after) := by
  have hshort : inside.length < source.length := by
    have hskip := length_skipBlanks_le source
    rw [h, List.length_cons] at hskip
    omega
  simp only [list, listOf, h]
  cases hmany : many (term (.ok width)) inside with
  | error error =>
    obtain ⟨s, hs, hterm, hdeclines⟩ := exists_of_star_error hmany
    exact .inr (.inl ⟨error, s, rfl, by omega, hterm, hdeclines⟩)
  | ok parsed =>
    obtain ⟨terms, after⟩ := parsed
    dsimp only
    split
    · exact .inl ⟨_, rfl⟩
    · rename_i hclose
      refine .inr (.inr ⟨terms, after, many_eq_ok_iff.mp hmany, fun hhead => ?_, rfl⟩)
      obtain ⟨rest, hrest⟩ := List.head?_eq_some_iff.mp hhead
      exact hclose rest hrest

theorem length_run_rest_le {terms : List Term} {after : List Char}
    (h : Run (term (.ok width)) inside terms after) : after.length ≤ inside.length :=
  length_star_rest_le (fun s parsed hread => Nat.le_of_lt (shortens_term _ s parsed hread))
    (many_eq_ok_iff.mpr h)

/-- After an opening parenthesis a term is a list, and its failures are those of the list. -/
theorem term_eq_list (h : skipBlanks source = '(' :: inside) :
    term (.ok width) source = list (.ok width) source := by
  have hatom : Balks (atom (.ok width)) source :=
    balks_of_failAt (atom_eq_of_declines (declines_atom h (.inl rfl)))
      (length_skipBlanks_le source)
  rw [term_eq]
  refine alternative_eq_second hatom fun failure hfailure hsoft => ?_
  rcases list_cases h with ⟨parsed, hok⟩ | ⟨error, s, herror, -, hterm, hhard⟩ |
      ⟨terms, after, hrun, -, hunclosed⟩
  · cases hok.symm.trans hfailure
  · cases herror.symm.trans hfailure
    exact absurd ⟨failure, hterm, hsoft⟩ hhard
  · -- the parenthesis itself has been used up
    cases hunclosed.symm.trans hfailure
    have hafter := length_run_rest_le hrun
    have hskip := length_skipBlanks_le after
    rw [h, List.length_cons]
    exact decide_eq_true (by omega)

/-- Anywhere else a term is an atom, and its failures are those of the atom. -/
theorem term_eq_atom (h : (skipBlanks source).head? ≠ some '(') :
    term (.ok width) source = atom (.ok width) source := by
  have hlist : Balks (list (.ok width)) source :=
    balks_of_failAt (list_of_not_open h) (Nat.le_refl _)
  rw [term_eq]
  exact alternative_eq_first hlist atom_eq_of_declines

theorem malformed_of_term {failure : Failure}
    (h : term (.ok width) source = .error (.failure failure)) (hfatal : failure.fatal = true) :
    Malformed failure := by
  induction hn : source.length using Nat.strongRecOn generalizing source with
  | _ n ih =>
    by_cases hopen : (skipBlanks source).head? = some '('
    · obtain ⟨inside, hinside⟩ := List.head?_eq_some_iff.mp hopen
      rw [term_eq_list hinside] at h
      rcases list_cases hinside with ⟨parsed, hok⟩ | ⟨error, s, herror, hs, hterm, -⟩ |
          ⟨terms, after, -, -, hunclosed⟩
      · cases hok.symm.trans h
      · cases herror.symm.trans h
        exact ih s.length (hn ▸ hs) hterm rfl
      · cases hunclosed.symm.trans h
        cases hfatal
    · rw [term_eq_atom hopen] at h
      exact malformed_of_atom h hfatal

end Term

/-! ## Where nothing begins -/

/-- No term begins with the text: it is empty, or it begins with a `#` that begins neither `#t` nor
`#f`, or with another character that begins no term. -/
inductive BeginsNothing : List Char → Prop
  | empty : BeginsNothing []
  | hash {rest : List Char} :
    (∀ after, rest = 't' :: after ∨ rest = 'f' :: after → continuesName after = true) →
    BeginsNothing ('#' :: rest)
  | other {c : Char} {rest : List Char} :
    c ∉ ['#', '"', '('] → isDigit c = false → isNameStart c = false → BeginsNothing (c :: rest)

section BeginsNothing

variable {width : Width} {source : List Char}

theorem BeginsNothing.classes {c : Char} {rest : List Char} (h : BeginsNothing (c :: rest)) :
    isDigit c = false ∧ isNameStart c = false ∧ c ≠ '"' ∧ c ≠ '(' := by
  cases h with
  | hash _ => decide
  | other hc hdigit hstart =>
    simp only [List.mem_cons, List.not_mem_nil, or_false, not_or] at hc
    exact ⟨hdigit, hstart, hc.2.1, hc.2.2⟩

theorem BeginsNothing.head?_ne_open {text : List Char} (h : BeginsNothing text) :
    text.head? ≠ some '(' := by
  cases text with
  | nil => exact nofun
  | cons c rest => exact fun hhead => h.classes.2.2.2 (Option.some.inj hhead)

theorem BeginsNothing.declines_literal (h : BeginsNothing (skipBlanks source)) :
    Declines literal source := by
  refine Grammar.declines_literal fun t rest hread => ?_
  obtain ⟨form, hsource, hliteral, hstop⟩ := literal_eq_ok_iff.mp hread
  rw [hsource] at h
  cases hliteral with
  | yes =>
    cases h with
    | hash hlater => cases hstop.symm.trans (hlater rest (.inl rfl))
    | other hc _ _ => exact hc List.mem_cons_self
  | no =>
    cases h with
    | hash hlater => cases hstop.symm.trans (hlater rest (.inr rfl))
    | other hc _ _ => exact hc List.mem_cons_self
  | unit =>
    have hstart := h.classes.2.1
    cases hstart

theorem BeginsNothing.declines_atom (h : BeginsNothing (skipBlanks source)) :
    Declines (atom (.ok width)) source := by
  have hliteral := h.declines_literal
  refine declines_alternative fun p hp => ?_
  simp only [List.mem_cons, List.not_mem_nil, or_false] at hp
  cases hsource : skipBlanks source with
  | nil =>
    rcases hp with rfl | rfl | rfl | rfl
    · exact declines_number (by rw [hsource]; rfl)
    · exact declines_string (by rw [hsource]; exact nofun)
    · exact hliteral
    · exact declines_of_failAt (by rw [identifier, hsource])
  | cons c rest =>
    rw [hsource] at h
    obtain ⟨hdigit, hstart, hquote, -⟩ := h.classes
    have hminus : c ≠ '-' := by
      rintro rfl
      cases hstart
    rcases hp with rfl | rfl | rfl | rfl
    · exact declines_number_of_cons hsource hdigit fun hsign => hminus hsign.1
    · exact declines_string_of_cons hsource hquote
    · exact hliteral
    · exact declines_identifier hsource hstart

/-- Digits are always taken for a number, whether it fits or not. -/
theorem startsWithDigit_of_declines (h : Declines (number (.ok width)) source) :
    startsWithDigit (splitSign (skipBlanks source)).2 = false := by
  obtain ⟨failure, hfailure, hsoft⟩ := h
  simp only [number] at hfailure
  split at hfailure
  · rename_i hnone
    cases hunsigned : (splitSign (skipBlanks source)).2 with
    | nil => rfl
    | cons c rest =>
      rw [hunsigned] at hnone
      cases hdigit : isDigit c with
      | false => exact hdigit
      | true =>
        rw [List.takeWhile_cons_of_pos hdigit] at hnone
        cases hnone
  · split at hfailure
    · cases hfailure
    · cases hfailure
      cases hsoft

theorem head?_ne_quote_of_declines (h : Declines string source) :
    (skipBlanks source).head? ≠ some '"' := by
  intro hhead
  obtain ⟨inside, hinside⟩ := List.head?_eq_some_iff.mp hhead
  obtain ⟨failure, hfailure, hsoft⟩ := h
  simp only [string, hinside] at hfailure
  have hmalformed := malformed_of_stringBody (eq_error_of_map hfailure)
  rw [hmalformed.fatal] at hsoft
  cases hsoft

theorem sign_of_declines_identifier {c : Char} {rest : List Char}
    (h : Declines identifier source) (hsource : skipBlanks source = c :: rest)
    (hstart : isNameStart c = true) : c = '-' ∧ startsWithDigit rest = true := by
  obtain ⟨failure, hfailure, -⟩ := h
  simp only [identifier, hsource, hstart, Bool.not_true, Bool.false_eq_true, if_false] at hfailure
  split at hfailure
  · rename_i hsign
    rwa [Bool.and_eq_true, beq_iff_eq] at hsign
  · cases hfailure

theorem beginsNothing_of_declines (h : Declines (atom (.ok width)) source)
    (hopen : (skipBlanks source).head? ≠ some '(') : BeginsNothing (skipBlanks source) := by
  have hparsers := declines_alternative_iff.mp h
  simp only [List.forall_mem_cons] at hparsers
  obtain ⟨hnumber, hstring, hliteral, hname, -⟩ := hparsers
  have hunsigned := startsWithDigit_of_declines hnumber
  have hquote := head?_ne_quote_of_declines hstring
  cases hsource : skipBlanks source with
  | nil => exact .empty
  | cons c rest =>
    rw [hsource] at hunsigned hquote hopen
    have hdigit : isDigit c = false := by
      cases hdigit : isDigit c with
      | false => rfl
      | true =>
        rw [splitSign_of_digit hdigit] at hunsigned
        exact hdigit.symm.trans hunsigned
    have hstart : isNameStart c = false := by
      cases hstart : isNameStart c with
      | false => rfl
      | true =>
        -- a sign with a digit after it is no name, but it is a number
        obtain ⟨rfl, hsign⟩ := sign_of_declines_identifier hname hsource hstart
        exact hsign.symm.trans hunsigned
    by_cases hhash : c = '#'
    · subst hhash
      refine .hash fun after hafter => ?_
      cases hstop : continuesName after with
      | true => rfl
      | false =>
        rcases hafter with rfl | rfl
        · exact absurd (literal_eq_ok_iff.mpr ⟨['#', 't'], hsource, .yes, hstop⟩) (hliteral.ne_ok _)
        · exact absurd (literal_eq_ok_iff.mpr ⟨['#', 'f'], hsource, .no, hstop⟩) (hliteral.ne_ok _)
    · refine .other ?_ hdigit hstart
      simp only [List.mem_cons, List.not_mem_nil, or_false, not_or]
      exact ⟨hhash, fun hc => hquote (congrArg some hc), fun hc => hopen (congrArg some hc)⟩

end BeginsNothing

/-! ## Soft failures of a term -/

/-- Written forms of the terms stand one after the other at the front of the input, each after
some blanks, and the last of them ends where `rest` begins. -/
inductive LeadsAll (width : Width) : List Term → List Char → List Char → Prop
  | nil {source : List Char} : LeadsAll width [] source source
  | cons {t : Term} {terms : List Term} {source middle rest : List Char} :
    Leads width t source middle → LeadsAll width terms middle rest →
    LeadsAll width (t :: terms) source rest

section Soft

variable {width : Width} {source rest : List Char}

/-- The elements of a list are all that is written there up to the first that is not read. -/
theorem run_iff {terms : List Term} {inside after : List Char} :
    Run (term (.ok width)) inside terms after ↔
      LeadsAll width terms inside after ∧ Declines (term (.ok width)) after := by
  constructor
  · intro h
    induction h with
    | stop hdeclines => exact ⟨.nil, hdeclines⟩
    | stuck hread hlong => exact absurd (shortens_term _ _ _ hread) hlong
    | step hread _ _ ih => exact ⟨.cons (term_eq_ok_iff.mp hread) ih.1, ih.2⟩
  · rintro ⟨hleads, hdeclines⟩
    induction hleads with
    | nil => exact .stop hdeclines
    | cons hfirst _ ih =>
      have hread := term_eq_ok_iff.mpr hfirst
      exact .step hread (shortens_term _ _ _ hread) (ih hdeclines)

/-- A term that is declined does not begin, or is a list whose end is missed. -/
theorem declines_term_cases (h : Declines (term (.ok width)) source) :
    (BeginsNothing (skipBlanks source) ∧
      term (.ok width) source = failAt .noAlternative source) ∨
    ∃ inside terms after, skipBlanks source = '(' :: inside ∧
      Run (term (.ok width)) inside terms after ∧ (skipBlanks after).head? ≠ some ')' ∧
      term (.ok width) source = failAt .unclosedList (skipBlanks after) := by
  obtain ⟨failure, hfailure, hsoft⟩ := h
  by_cases hopen : (skipBlanks source).head? = some '('
  · obtain ⟨inside, hinside⟩ := List.head?_eq_some_iff.mp hopen
    rw [term_eq_list hinside] at hfailure ⊢
    rcases list_cases hinside with ⟨parsed, hok⟩ | ⟨error, s, herror, -, hterm, hhard⟩ |
        ⟨terms, after, hrun, hclose, hunclosed⟩
    · cases hok.symm.trans hfailure
    · cases herror.symm.trans hfailure
      exact absurd ⟨failure, hterm, hsoft⟩ hhard
    · exact .inr ⟨inside, terms, after, hinside, hrun, hclose, hunclosed⟩
  · rw [term_eq_atom hopen] at hfailure ⊢
    have hatom : Declines (atom (.ok width)) source := ⟨failure, hfailure, hsoft⟩
    exact .inl ⟨beginsNothing_of_declines hatom hopen, atom_eq_of_declines hatom⟩

theorem term_eq_noAlternative_iff :
    term (.ok width) source = failAt .noAlternative source ↔
      BeginsNothing (skipBlanks source) := by
  constructor
  · intro h
    rcases declines_term_cases (declines_of_failAt h) with ⟨hnothing, -⟩ |
        ⟨inside, terms, after, -, -, -, hunclosed⟩
    · exact hnothing
    · cases hunclosed.symm.trans h
  · intro h
    rw [term_eq_atom h.head?_ne_open]
    exact atom_eq_of_declines h.declines_atom

theorem skipBlanks_skipBlanks (source : List Char) :
    skipBlanks (skipBlanks source) = skipBlanks source := by
  obtain ⟨gap, -, -, hhead⟩ := skipBlanks_eq_iff.mp (Eq.refl (skipBlanks source))
  exact skipBlanks_eq_iff.mpr ⟨[], rfl, nofun, hhead⟩

theorem declines_congr {p : Parser Term} {s s' : List Char} (h : p s = p s') :
    Declines p s ↔ Declines p s' := by
  rw [Declines, Declines, h]

/-- Only a failure that nothing matched tells where the blanks before a term began, so blanks do
not matter to whether there is a soft failure. -/
theorem declines_term_skipBlanks :
    Declines (term (.ok width)) (skipBlanks source) ↔ Declines (term (.ok width)) source := by
  have hatom : Declines (atom (.ok width)) (skipBlanks source) ↔
      Declines (atom (.ok width)) source := by
    rw [atom, declines_alternative_iff, declines_alternative_iff]
    refine forall₂_congr fun p hp => declines_congr ?_
    simp only [List.mem_cons, List.not_mem_nil, or_false] at hp
    rcases hp with rfl | rfl | rfl | rfl
    · simp only [number, skipBlanks_skipBlanks]
    · simp only [string, skipBlanks_skipBlanks]
    · simp only [literal, skipBlanks_skipBlanks]
    · simp only [identifier, skipBlanks_skipBlanks]
  have hlist : Declines (list (.ok width)) (skipBlanks source) ↔
      Declines (list (.ok width)) source :=
    declines_congr (by simp only [list, listOf, skipBlanks_skipBlanks])
  have hterm : ∀ s, Declines (term (.ok width)) s ↔
      ∀ p ∈ [atom (.ok width), list (.ok width)], Declines p s := by
    intro s
    rw [Declines, term_eq]
    exact declines_alternative_iff
  rw [hterm, hterm, List.forall_mem_cons, List.forall_mem_singleton, List.forall_mem_cons,
    List.forall_mem_singleton, hatom, hlist]

/-- The end of a list is missed where no further element can be read either. -/
theorem term_eq_unclosed_iff :
    term (.ok width) source = failAt .unclosedList rest ↔
      ∃ inside terms after, skipBlanks source = '(' :: inside ∧
        LeadsAll width terms inside after ∧ skipBlanks after = rest ∧ rest.head? ≠ some ')' ∧
        Declines (term (.ok width)) rest := by
  constructor
  · intro h
    rcases declines_term_cases (declines_of_failAt h) with ⟨-, hnothing⟩ |
        ⟨inside, terms, after, hsource, hrun, hclose, hunclosed⟩
    · cases hnothing.symm.trans h
    · cases hunclosed.symm.trans h
      obtain ⟨hleads, hdeclines⟩ := run_iff.mp hrun
      exact ⟨inside, terms, after, hsource, hleads, rfl, hclose,
        declines_term_skipBlanks.mpr hdeclines⟩
  · rintro ⟨inside, terms, after, hsource, hleads, rfl, hclose, hdeclines⟩
    have hrun := run_iff.mpr ⟨hleads, declines_term_skipBlanks.mp hdeclines⟩
    rw [term_eq_list hsource]
    simp only [list, listOf, hsource, many_eq_ok_iff.mpr hrun]
    split
    · rename_i hafter
      rw [hafter] at hclose
      exact absurd rfl hclose
    · rfl

theorem term_failure_cases {failure : Failure}
    (h : term (.ok width) source = .error (.failure failure)) :
    Malformed failure ∨ failure = { cause := .noAlternative, rest := some source } ∨
      ∃ rest, failure = { cause := .unclosedList, rest := some rest } := by
  cases hfatal : failure.fatal with
  | true => exact .inl (malformed_of_term h hfatal)
  | false =>
    rcases declines_term_cases ⟨failure, h, hfatal⟩ with ⟨-, hnothing⟩ |
        ⟨inside, terms, after, -, -, -, hunclosed⟩
    · cases hnothing.symm.trans h
      exact .inr (.inl rfl)
    · cases hunclosed.symm.trans h
      exact .inr (.inr ⟨_, rfl⟩)

end Soft

/-! ## Whole inputs -/

section Parse

variable {width : Width} {source : String}

/-- An input fails as its term does, or there is something after its term. -/
theorem parse_eq_failure_iff {failure : Failure} :
    parse (.ok width) source = .error (.failure failure) ↔
      term (.ok width) source.toList = .error (.failure failure) ∨
      ∃ t rest, term (.ok width) source.toList = .ok ⟨t, rest⟩ ∧ (∃ c ∈ rest, isBlank c = false) ∧
        failure = { cause := .incomplete, rest := some rest } := by
  rw [parse, parseChars]
  constructor
  · intro h
    split at h
    · rename_i e hterm
      exact .inl (hterm.trans (congrArg Except.error (Except.error.inj h)))
    · rename_i t rest hterm
      split at h
      · cases h
      · rename_i hblank
        cases h
        simp only [List.all_eq_true, not_forall, Bool.not_eq_true] at hblank
        obtain ⟨c, hc, hother⟩ := hblank
        exact .inr ⟨t, rest, hterm, ⟨c, hc, hother⟩, rfl⟩
  · rintro (hterm | ⟨t, rest, hterm, ⟨c, hc, hother⟩, rfl⟩)
    · rw [hterm]
    · have hblank : ¬ rest.all isBlank = true := by
        intro hall
        rw [List.all_eq_true.mp hall c hc] at hother
        cases hother
      simp only [hterm, if_neg hblank]

theorem parse_eq_term_failure_iff {failure : Failure} (h : failure.cause ≠ .incomplete) :
    parse (.ok width) source = .error (.failure failure) ↔
      term (.ok width) source.toList = .error (.failure failure) := by
  rw [parse_eq_failure_iff, or_iff_left]
  rintro ⟨t, rest, -, -, rfl⟩
  exact h rfl

theorem parse_eq_incomplete_iff {rest : List Char} :
    parse (.ok width) source
        = .error (.failure { cause := .incomplete, rest := some rest }) ↔
      (∃ t, term (.ok width) source.toList = .ok ⟨t, rest⟩) ∧ ∃ c ∈ rest, isBlank c = false := by
  rw [parse_eq_failure_iff]
  constructor
  · rintro (hterm | ⟨t, rest', hterm, hother, hfailure⟩)
    · -- no term fails for being incomplete
      rcases term_failure_cases hterm with hmalformed | hnothing | ⟨rest', hunclosed⟩
      · cases hmalformed
      · cases hnothing
      · cases hunclosed
    · cases hfailure
      exact ⟨⟨t, hterm⟩, hother⟩
  · rintro ⟨⟨t, hterm⟩, hother⟩
    exact .inr ⟨t, rest, hterm, hother, rfl⟩

theorem parse_failure_cases {failure : Failure}
    (h : parse (.ok width) source = .error (.failure failure)) :
    Malformed failure ∨ failure = { cause := .noAlternative, rest := some source.toList } ∨
      (∃ rest, failure = { cause := .unclosedList, rest := some rest }) ∨
      ∃ rest, failure = { cause := .incomplete, rest := some rest } := by
  rcases parse_eq_failure_iff.mp h with hterm | ⟨t, rest, -, -, rfl⟩
  · rcases term_failure_cases hterm with hmalformed | hnothing | hunclosed
    · exact .inl hmalformed
    · exact .inr (.inl hnothing)
    · exact .inr (.inr (.inl hunclosed))
  · exact .inr (.inr (.inr ⟨rest, rfl⟩))

theorem parse_eq_unclosed_iff {rest : List Char} :
    parse (.ok width) source
        = .error (.failure { cause := .unclosedList, rest := some rest }) ↔
      ∃ before inside terms gap, source.toList = before ++ '(' :: inside ∧
        (∀ c ∈ before, isBlank c = true) ∧ LeadsAll width terms inside (gap ++ rest) ∧
        (∀ c ∈ gap, isBlank c = true) ∧ (∀ c ∈ rest.head?, isBlank c = false ∧ c ≠ ')') ∧
        Declines (term (.ok width)) rest := by
  have hopen : ∀ inside, skipBlanks source.toList = '(' :: inside ↔
      ∃ before, source.toList = before ++ ['('] ++ inside ∧ ∀ c ∈ before, isBlank c = true :=
    fun inside => skipBlanks_eq_append_iff ⟨'(', [], rfl, by decide⟩
  rw [parse_eq_term_failure_iff (by simp)]
  refine term_eq_unclosed_iff.trans ⟨?_, ?_⟩
  · rintro ⟨inside, terms, after, hsource, hleads, hafter, hclose, hdeclines⟩
    obtain ⟨before, hsource, hbefore⟩ := (hopen inside).mp hsource
    obtain ⟨gap, rfl, hgap, hblank⟩ := skipBlanks_eq_iff.mp hafter
    refine ⟨before, inside, terms, gap, ?_, hbefore, hleads, hgap, ?_, hdeclines⟩
    · rw [hsource, List.append_assoc, List.singleton_append]
    · intro c hc
      refine ⟨hblank c hc, ?_⟩
      rintro rfl
      exact hclose hc
  · rintro ⟨before, inside, terms, gap, hsource, hbefore, hleads, hgap, hrest, hdeclines⟩
    refine ⟨inside, terms, gap ++ rest, (hopen inside).mpr ⟨before, ?_, hbefore⟩, hleads,
      skipBlanks_eq_iff.mpr ⟨gap, rfl, hgap, fun c hc => (hrest c hc).1⟩, ?_, hdeclines⟩
    · rw [hsource, List.append_assoc, List.singleton_append]
    · intro hclose
      exact (hrest ')' hclose).2 rfl

end Parse

/-- All the failures to read. An input that is not read has a malformed literal in it, or nothing
matched, or the end of a list was missed, or something follows its term. Nothing matches exactly
if nothing begins at the first character that is not blank, and the failure is then reported at
the whole input. The end of a list is missed exactly at a place of the outermost list where,
after some complete elements of it, neither a further element nor its end is found. Something
follows a term exactly if the term is read and not all that is left is blank. -/
theorem parse_failure_classified (width : Width) (source : String) :
    (∀ error, parse (.ok width) source = .error error →
      ∃ failure, error = .failure failure ∧
        (Malformed failure ∨
          failure = { cause := .noAlternative, rest := some source.toList } ∨
          (∃ rest, failure = { cause := .unclosedList, rest := some rest }) ∨
          ∃ rest, failure = { cause := .incomplete, rest := some rest })) ∧
    (parse (.ok width) source
        = .error (.failure { cause := .noAlternative, rest := some source.toList }) ↔
      BeginsNothing (skipBlanks source.toList)) ∧
    (∀ rest, parse (.ok width) source
        = .error (.failure { cause := .unclosedList, rest := some rest }) ↔
      ∃ before inside terms gap, source.toList = before ++ '(' :: inside ∧
        (∀ c ∈ before, isBlank c = true) ∧ LeadsAll width terms inside (gap ++ rest) ∧
        (∀ c ∈ gap, isBlank c = true) ∧ (∀ c ∈ rest.head?, isBlank c = false ∧ c ≠ ')') ∧
        Declines (term (.ok width)) rest) ∧
    (∀ rest, parse (.ok width) source
        = .error (.failure { cause := .incomplete, rest := some rest }) ↔
      (∃ t, term (.ok width) source.toList = .ok ⟨t, rest⟩) ∧ ∃ c ∈ rest, isBlank c = false) ∧
    (∀ failure, Malformed failure → failure.fatal = true ∧
      (failure.message = "number literal out of range" ∧
          failure.label = "GuciOverflowParseError" ∨
        (∃ escaped : Option Char, failure.message
          = "invalid escape sequence '\\" ++ String.ofList escaped.toList ++ "'") ∨
        failure.message = "unterminated string literal")) ∧
    ∀ rest, Failure.message { cause := .noAlternative, rest := some rest }
        = "none of the alternatives matched" ∧
      Failure.message { cause := .unclosedList, rest := some rest }
        = "list should end with ')'; rest is: " ++ String.ofList rest ∧
      Failure.message { cause := .incomplete, rest := some rest } = "incomplete parse" := by
  refine ⟨?_, ?_, fun rest => parse_eq_unclosed_iff, fun rest => parse_eq_incomplete_iff, ?_,
    fun rest => ⟨rfl, rfl, rfl⟩⟩
  · intro error h
    obtain ⟨failure, rfl⟩ := exists_failure_of_parse h
    exact ⟨failure, rfl, parse_failure_cases h⟩
  · rw [parse_eq_term_failure_iff (by simp)]
    exact term_eq_noAlternative_iff
  · intro failure h
    refine ⟨h.fatal, ?_⟩
    cases h with
    | outOfRange rest => exact .inl ⟨rfl, rfl⟩
    | escape escaped rest => exact .inr (.inl ⟨escaped, rfl⟩)
    | unterminated => exact .inr (.inr rfl)

/-- The list `(() #tt` is not closed at `#tt`, which is neither a boolean nor a name. -/
theorem parse_unclosed_at_hash :
    let failure : Failure := { cause := .unclosedList, rest := some ['#', 't', 't'] }
    parse (.ok ⟨8, by decide⟩) "(() #tt" = .error (.failure failure) ∧
      ∃ other, ReadError.failure failure = .failure other ∧
        (Malformed other ∨
          other = { cause := .noAlternative, rest := some "(() #tt".toList } ∨
          (∃ rest, other = { cause := .unclosedList, rest := some rest }) ∨
          ∃ rest, other = { cause := .incomplete, rest := some rest }) := by
  intro failure
  obtain ⟨hcases, -, hunclosed, -⟩ := parse_failure_classified ⟨8, by decide⟩ "(() #tt"
  have hempty : Leads ⟨8, by decide⟩ (.list []) "() #tt".toList " #tt".toList :=
    ⟨[], ['(', ')'], rfl, nofun, .list (@Elements.nil _ [] nofun), trivial⟩
  have hnothing : BeginsNothing (skipBlanks ['#', 't', 't']) := by
    refine .hash fun after hafter => ?_
    rcases hafter with hafter | hafter
    · cases hafter
      rfl
    · cases hafter
  have hparse : parse (.ok ⟨8, by decide⟩) "(() #tt" = .error (.failure failure) := by
    refine (hunclosed _).mpr ⟨[], "() #tt".toList, [.list []], [' '], rfl, nofun, .cons hempty .nil,
      List.all_eq_true.mp rfl, ?_, declines_of_failAt (term_eq_noAlternative_iff.mpr hnothing)⟩
    intro c hc
    cases hc
    decide
  exact ⟨hparse, hcases _ hparse⟩

end ScopeLisp.Grammar
