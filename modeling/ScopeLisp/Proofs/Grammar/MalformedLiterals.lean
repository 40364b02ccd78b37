import ScopeLisp.Proofs.Grammar.Rejection

/-!
# Malformed literals are reported from any depth

Soft failures are passed over by choices and end repetitions, so that a list reports in the end
what its own end looks like. A fatal failure is passed on by each of them as it is. Hence a literal
that cannot be anything else is what the reader reports, with the text at which it went wrong, in
however many lists it stands and whatever comes after it: the elements before it are read one by
one, and the reader has not looked further.

* `Opening`, `EndsOpen`: the texts that leave the reader at the beginning of an element.
* `alternative_of_fatal`, `LeadsAll.star_eq`: fatal failures come through choices and repetitions.
* `Opening.term_eq`: and hence through any number of open lists, by induction on them.
* `malformed_literal_reported`: the three kinds of malformed literals.
-/

namespace ScopeLisp.Grammar

open Reader

/-! ## Where an element begins -/

/-- The text leaves the reader inside of any number of lists: after leading blanks, each list has
been opened by a parenthesis, and complete elements of the list follow the parenthesis. -/
inductive Opening (width : Width) : List Char → Prop
  | blank {gap : List Char} : (∀ c ∈ gap, isBlank c = true) → Opening width gap
  | list {gap inside rest : List Char} {terms : List Term} :
    (∀ c ∈ gap, isBlank c = true) → LeadsAll width terms inside rest → Opening width rest →
    Opening width (gap ++ '(' :: inside)

/-- The text is empty, or it ends in a blank or in an opening parenthesis, so that what follows it
begins a token of its own. -/
def EndsOpen (text : List Char) : Prop := ∀ c ∈ text.getLast?, isBlank c = true ∨ c = '('

theorem EndsOpen.of_suffix {text rest : List Char} (h : EndsOpen text) (hsuffix : rest <:+ text) :
    EndsOpen rest := by
  obtain ⟨front, rfl⟩ := hsuffix
  intro c hc
  refine h c ?_
  rw [List.getLast?_append, Option.mem_def.mp hc]
  rfl

theorem not_endsOpen_concat {front : List Char} {c : Char} (hblank : isBlank c = false)
    (hopen : c ≠ '(') : ¬ EndsOpen (front ++ [c]) := by
  intro h
  rcases h c List.getLast?_concat with hc | hc
  · rw [hblank] at hc
    cases hc
  · exact hopen hc

theorem not_endsOpen_of_isNameChar {form : List Char} (hne : form ≠ [])
    (h : ∀ c ∈ form, isNameChar c = true) : ¬ EndsOpen form := by
  have hlast := h _ (List.getLast_mem hne)
  rw [← List.dropLast_concat_getLast hne]
  refine not_endsOpen_concat (isBlank_of_isNameChar hlast) fun heq => ?_
  rw [heq] at hlast
  cases hlast

section Forms

variable {width : Width} {t : Term} {terms : List Term} {form : List Char}

theorem Numeral.not_endsOpen {n : Nat} (h : Numeral n form) : ¬ EndsOpen form :=
  not_endsOpen_of_isNameChar h.ne_nil fun c hc => isNameChar_of_isDigit (h.isDigit c hc)

theorem Atom.not_endsOpen (h : Atom width t form) : ¬ EndsOpen form := by
  cases h with
  | natural hnumeral _ => exact hnumeral.not_endsOpen
  | negative hnumeral _ =>
    exact fun h => hnumeral.not_endsOpen (h.of_suffix (List.suffix_cons _ _))
  | @string _ body _ => exact @not_endsOpen_concat ('"' :: body) '"' rfl (by decide)
  | literal hliteral =>
    cases hliteral with
    | yes => exact @not_endsOpen_concat ['#'] 't' rfl (by decide)
    | no => exact @not_endsOpen_concat ['#'] 'f' rfl (by decide)
    | unit => exact @not_endsOpen_concat ['N', 'I'] 'L' rfl (by decide)
  | name hword _ =>
    refine not_endsOpen_of_isNameChar ?_ hword.isNameChar
    obtain ⟨-, -, -⟩ := hword
    exact List.cons_ne_nil _ _

theorem Elements.not_endsOpen (h : Elements width terms form) : ¬ EndsOpen form := by
  induction terms generalizing form with
  | nil =>
    cases h with
    | nil _ => exact not_endsOpen_concat rfl (by decide)
  | cons t terms ih =>
    cases h with
    | cons _ _ _ hrest => exact fun h => ih hrest (h.of_suffix (List.suffix_append _ _))

/-- No written form ends in a blank or in an opening parenthesis. -/
theorem Written.not_endsOpen (h : Written width t form) : ¬ EndsOpen form := by
  cases h with
  | atom hatom => exact hatom.not_endsOpen
  | list helements =>
    exact fun h => helements.not_endsOpen (h.of_suffix (List.suffix_cons _ _))

end Forms

section Leads

variable {width : Width} {t : Term} {terms : List Term} {source rest : List Char}

theorem LeadsAll.suffix (h : LeadsAll width terms source rest) : rest <:+ source := by
  induction h with
  | nil => exact List.suffix_rfl
  | cons hfirst _ ih =>
    obtain ⟨gap, form, rfl, -⟩ := hfirst
    exact ih.trans (List.suffix_append _ _)

/-- If a text ends openly, there is more in it after each of its elements, and so the elements are
the same with anything after the text. -/
theorem LeadsAll.append (h : LeadsAll width terms source rest) (hopen : EndsOpen source)
    (more : List Char) : LeadsAll width terms (source ++ more) (rest ++ more) := by
  induction h with
  | nil => exact .nil
  | @cons t _ _ middle _ hfirst _ ih =>
    obtain ⟨gap, form, rfl, hgap, hwritten, hends⟩ := hfirst
    have hmiddle : middle ≠ [] := by
      rintro rfl
      rw [List.append_nil] at hopen
      exact hwritten.not_endsOpen (hopen.of_suffix (List.suffix_append _ _))
    refine .cons ⟨gap, form, List.append_assoc .., hgap, hwritten, ?_⟩
      (ih (hopen.of_suffix (List.suffix_append _ _)))
    exact (endsAt_append hmiddle more).mpr hends

end Leads

/-! ## Fatal failures come through -/

/-- A choice passes a fatal failure on, after the parsers that decline. -/
theorem alternative_of_fatal {α : Type} {before after : List (Parser α)} {p : Parser α}
    {source : List Char} {failure : Failure} (hbefore : ∀ q ∈ before, Declines q source)
    (hp : p source = .error (.failure failure)) (hfatal : failure.fatal = true) :
    alternative (before ++ p :: after) source = .error (.failure failure) := by
  rw [alternative]
  generalize ([] : List Failure) = failures
  induction before generalizing failures with
  | nil => simp only [List.nil_append, tryEach, hp, hfatal, if_true]
  | cons q before ih =>
    obtain ⟨first, hfirst, hsoft⟩ := hbefore q List.mem_cons_self
    simp only [List.cons_append, tryEach, hfirst, hsoft, Bool.false_eq_true, if_false]
    exact ih (fun q hq => hbefore q (List.mem_cons_of_mem _ hq)) _

section Depth

variable {width : Width} {terms : List Term} {source rest : List Char} {failure : Failure}

/-- A repetition passes on the fatal failure of an element, after the elements that are read. -/
theorem LeadsAll.star_eq {β : Type} (h : LeadsAll width terms source rest)
    (hrest : term (.ok width) rest = .error (.failure failure)) (hfatal : failure.fatal = true)
    (op : β → Term → β) (initial : β) :
    star (term (.ok width)) op initial source = .error (.failure failure) := by
  induction h generalizing initial with
  | nil =>
    rw [Reader.star_eq]
    simp only [hrest, hfatal, if_true]
  | cons hfirst _ ih =>
    have hread := term_eq_ok_iff.mpr hfirst
    have hshort := shortens_term _ _ _ hread
    rw [Reader.star_eq]
    simp only [hread, if_pos hshort]
    exact ih hrest _

/-- A fatal failure at the beginning of an element is the failure of the outermost list. -/
theorem Opening.term_eq {opening text : List Char} (h : Opening width opening)
    (hopen : EndsOpen opening) (hhead : ∀ c ∈ text.head?, isBlank c = false)
    (htext : ∀ source, skipBlanks source = text →
      term (.ok width) source = .error (.failure failure))
    (hfatal : failure.fatal = true) :
    term (.ok width) (opening ++ text) = .error (.failure failure) := by
  induction h with
  | blank hgap => exact htext _ (skipBlanks_eq_iff.mpr ⟨_, rfl, hgap, hhead⟩)
  | @list gap inside rest terms hgap hleads _ ih =>
    have hinside : EndsOpen inside :=
      hopen.of_suffix ((List.suffix_cons _ _).trans (List.suffix_append _ _))
    have hrest := ih (hinside.of_suffix hleads.suffix)
    have hmany : many (term (.ok width)) (inside ++ text) = .error (.failure failure) :=
      (hleads.append hinside text).star_eq hrest hfatal _ _
    have hsource : skipBlanks (gap ++ '(' :: inside ++ text) = '(' :: (inside ++ text) := by
      refine skipBlanks_eq_iff.mpr ⟨gap, List.append_assoc .., hgap, fun c hc => ?_⟩
      cases hc
      rfl
    rw [term_eq_list hsource]
    simp only [Reader.list, listOf, hsource, hmany]

end Depth

/-! ## The literals -/

section Literals

variable {width : Width} {source : List Char} {failure : Failure}

/-- A number literal that does not fit the width. -/
inductive Oversized (width : Width) : List Char → Prop
  | natural {n : Nat} {form : List Char} :
    Numeral n form → width.holds n = false → Oversized width form
  | negative {n : Nat} {form : List Char} :
    Numeral n form → width.holds (-n) = false → Oversized width ('-' :: form)

theorem Oversized.exists_cons {form : List Char} (h : Oversized width form) :
    ∃ c more, form = c :: more ∧ isNameChar c = true := by
  cases h with
  | natural hnumeral _ =>
    obtain ⟨c, more, rfl, hc⟩ := hnumeral.exists_cons
    exact ⟨c, more, rfl, isNameChar_of_isDigit hc⟩
  | negative _ _ => exact ⟨'-', _, rfl, rfl⟩

theorem number_of_not_holds {negative : Bool} {n : Nat} {digits following : List Char}
    (hsplit : splitSign (skipBlanks source) = (negative, digits ++ following))
    (hnumeral : Numeral n digits) (hholds : width.holds (signed negative n) = false)
    (hstop : startsWithDigit following = false) :
    number (.ok width) source = failFatally .numberOutOfRange following := by
  have hvalue : numeralValue digits = n :=
    (numeralValue_eq_ofDigits digits).trans hnumeral.ofDigits_eq
  obtain ⟨htake, hdrop⟩ := takeWhile_dropWhile_iff.mpr
    ⟨rfl, hnumeral.isDigit, startsWithDigit_eq_false_iff.mp hstop⟩
  simp only [number, hsplit, htake, hdrop]
  split
  · exact absurd rfl hnumeral.ne_nil
  · simp only [hvalue, hholds, Bool.false_eq_true, if_false]

theorem Oversized.number_eq {form following : List Char} (h : Oversized width form)
    (hsource : skipBlanks source = form ++ following) (hstop : startsWithDigit following = false) :
    number (.ok width) source = failFatally .numberOutOfRange following := by
  cases h with
  | natural hnumeral hholds =>
    obtain ⟨c, more, rfl, hc⟩ := hnumeral.exists_cons
    have hsplit : splitSign (skipBlanks source) = (false, c :: more ++ following) := by
      rw [hsource]
      exact splitSign_of_digit hc (more ++ following)
    exact number_of_not_holds hsplit hnumeral hholds hstop
  | @negative _ digits hnumeral hholds =>
    have hsplit : splitSign (skipBlanks source) = (true, digits ++ following) := by
      rw [hsource]
      rfl
    exact number_of_not_holds hsplit hnumeral hholds hstop

/-- The characters of a string that are all right are read before what follows them. -/
theorem Body.stringBody_append {meant body : List Char} (h : Body meant body) (rest : List Char) :
    stringBody (body ++ rest) = (stringBody rest).map (Parsed.map (meant ++ ·)) := by
  induction h with
  | nil =>
    rw [List.nil_append]
    cases stringBody rest <;> rfl
  | plain hquote hslash _ ih =>
    rw [List.cons_append, stringBody.eq_def]
    simp only [if_neg hquote, if_neg hslash, ih]
    cases stringBody rest <;> rfl
  | escape hescape _ ih =>
    rw [List.cons_append, List.cons_append, stringBody.eq_def]
    simp only [unescape?_eq_some_iff.mpr hescape, ih]
    cases stringBody rest <;> rfl

theorem unescape?_eq_none {c : Char} (h : c ∉ ['n', 't', '\\', '"']) : unescape? c = none := by
  cases hc : unescape? c with
  | none => rfl
  | some d =>
    have hmem := List.mem_map_of_mem (f := Prod.fst) (unescape?_eq_some_iff.mp hc)
    exact absurd hmem h

theorem stringBody_bad_escape {after : List Char}
    (h : ∀ c ∈ after.head?, c ∉ ['n', 't', '\\', '"']) :
    stringBody ('\\' :: after) = failFatally (.invalidEscape after.head?) ('\\' :: after) := by
  cases after with
  | nil => rfl
  | cons c more =>
    rw [stringBody.eq_def]
    simp only [unescape?_eq_none (h c rfl)]
    rfl

theorem Oversized.term_eq {form following : List Char} (h : Oversized width form)
    (hsource : skipBlanks source = form ++ following) (hstop : startsWithDigit following = false) :
    term (.ok width) source = failFatally .numberOutOfRange following := by
  have hnumber := h.number_eq hsource hstop
  obtain ⟨c, more, rfl, hc⟩ := h.exists_cons
  have hatom : (skipBlanks source).head? ≠ some '(' := by
    rw [hsource]
    intro hhead
    cases hhead
    cases hc
  rw [term_eq_atom hatom]
  exact @alternative_of_fatal _ [] _ _ _ _ nofun hnumber rfl

/-- A string fails as its body does: a quote begins no number, which is tried before. -/
theorem term_of_stringBody {inside : List Char} (hsource : skipBlanks source = '"' :: inside)
    (hbody : stringBody inside = .error (.failure failure)) (hfatal : failure.fatal = true) :
    term (.ok width) source = .error (.failure failure) := by
  have hnumber : Declines (number (.ok width)) source :=
    declines_number_of_cons hsource rfl fun hsign => absurd hsign.1 (by decide)
  have hstring : string source = .error (.failure failure) := by
    simp only [string, hsource, hbody]
    rfl
  have hatom : (skipBlanks source).head? ≠ some '(' := by
    rw [hsource]
    intro hhead
    cases hhead
  rw [term_eq_atom hatom]
  exact @alternative_of_fatal _ [number (.ok width)] _ _ _ _
    (List.forall_mem_singleton.mpr hnumber) hstring hfatal

end Literals

/-! ## Whole inputs -/

theorem parse_of_term {width : Width} {source : List Char} {failure : Failure}
    (h : term (.ok width) source = .error (.failure failure)) :
    parse (.ok width) (String.ofList source) = .error (.failure failure) := by
  refine parse_eq_failure_iff.mpr (.inl ?_)
  rw [String.toList_ofList]
  exact h

/-- A string that goes wrong after some characters that are all right. -/
theorem parse_of_stringBody {width : Width} {opening meant body rest : List Char}
    {failure : Failure} (hopening : Opening width opening) (hopen : EndsOpen opening)
    (hbody : Body meant body) (hrest : stringBody rest = .error (.failure failure))
    (hfatal : failure.fatal = true) :
    parse (.ok width) (String.ofList (opening ++ '"' :: (body ++ rest)))
      = .error (.failure failure) := by
  have hinside : stringBody (body ++ rest) = .error (.failure failure) := by
    rw [hbody.stringBody_append, hrest]
    rfl
  refine parse_of_term (hopening.term_eq hopen (fun c hc => ?_)
    (fun source hsource => term_of_stringBody hsource hinside hfatal) hfatal)
  cases hc
  rfl

/-- Let a text leave the reader at the beginning of an element, in any number of open lists. If a
number literal that does not fit the width comes next, and no further digit, then this is what is
reported, at the text after its digits. If a string comes next whose first backslash that makes no
escape is followed by another character or by nothing, then the escape is reported, at the
backslash. If a string comes next that is never closed, then this is reported, at the end of the
input. Nothing that follows the literal plays a part. -/
theorem malformed_literal_reported (width : Width) {opening : List Char}
    (hopening : Opening width opening) (hopen : EndsOpen opening) :
    (∀ literal following, Oversized width literal → startsWithDigit following = false →
      parse (.ok width) (String.ofList (opening ++ (literal ++ following)))
        = .error (.failure
            { cause := .numberOutOfRange, rest := some following, fatal := true })) ∧
    (∀ meant body after, Body meant body → (∀ c ∈ after.head?, c ∉ ['n', 't', '\\', '"']) →
      parse (.ok width) (String.ofList (opening ++ '"' :: (body ++ '\\' :: after)))
        = .error (.failure
            { cause := .invalidEscape after.head?, rest := some ('\\' :: after),
              fatal := true })) ∧
    (∀ meant body, Body meant body →
      parse (.ok width) (String.ofList (opening ++ '"' :: body))
        = .error (.failure
            { cause := .unterminatedString, rest := some [], fatal := true })) ∧
    ∀ (rest : Option (List Char)) (escaped : Option Char),
      Failure.label { cause := .numberOutOfRange, rest, fatal := true }
        = "GuciOverflowParseError" ∧
      Failure.message { cause := .numberOutOfRange, rest, fatal := true }
        = "number literal out of range" ∧
      Failure.message { cause := .invalidEscape escaped, rest, fatal := true }
        = "invalid escape sequence '\\" ++ String.ofList escaped.toList ++ "'" ∧
      Failure.message { cause := .unterminatedString, rest, fatal := true }
        = "unterminated string literal" := by
  refine ⟨?_, ?_, ?_, fun rest escaped => ⟨rfl, rfl, rfl, rfl⟩⟩
  · intro literal following hliteral hstop
    refine parse_of_term (hopening.term_eq hopen (fun c hc => ?_)
      (fun source hsource => hliteral.term_eq hsource hstop) rfl)
    obtain ⟨d, more, rfl, hd⟩ := hliteral.exists_cons
    cases hc
    exact isBlank_of_isNameChar hd
  · intro meant body after hbody hescape
    exact parse_of_stringBody hopening hopen hbody (stringBody_bad_escape hescape) rfl
  · intro meant body hbody
    have hparse := parse_of_stringBody hopening hopen hbody
      (show stringBody [] = failFatally .unterminatedString [] from rfl) rfl
    rwa [List.append_nil] at hparse

/-- Inside of two lists, after elements of both: eight bits do not hold 128, a backslash before `q`
makes no escape, and nothing closes a string. Parentheses and quotes that follow do not matter. -/
theorem malformed_literal_reported_nested :
    let opening := "\t(+ -1( #t ".toList
    Opening ⟨8, by decide⟩ opening ∧ EndsOpen opening ∧
    parse (.ok ⟨8, by decide⟩) "\t(+ -1( #t 128#(\"" = .error (.failure
      { cause := .numberOutOfRange, rest := some "#(\"".toList, fatal := true }) ∧
    parse (.ok ⟨8, by decide⟩) "\t(+ -1( #t \"a\\n\\q\" 999" = .error (.failure
      { cause := .invalidEscape (some 'q'), rest := some "\\q\" 999".toList, fatal := true }) ∧
    parse (.ok ⟨8, by decide⟩) "\t(+ -1( #t \"a\\\"))" = .error (.failure
      { cause := .unterminatedString, rest := some [], fatal := true }) := by
  intro opening
  have hplus : Leads ⟨8, by decide⟩ (.identifier "+") "+ -1( #t ".toList " -1( #t ".toList :=
    ⟨[], ['+'], rfl, nofun, written_name rfl (by decide) rfl (by decide), rfl⟩
  have hone : Leads ⟨8, by decide⟩ (.number (-1)) " -1( #t ".toList "( #t ".toList := by
    have hnumeral : Numeral 1 ['1'] := ⟨List.cons_ne_nil _ _, List.all_eq_true.mp rfl, rfl⟩
    exact ⟨[' '], ['-', '1'], rfl, List.all_eq_true.mp rfl, .atom (.negative hnumeral rfl), rfl⟩
  have htrue : Leads ⟨8, by decide⟩ (.boolean true) " #t ".toList " ".toList :=
    ⟨[' '], ['#', 't'], rfl, List.all_eq_true.mp rfl, .atom (.literal .yes), rfl⟩
  have hopening : Opening ⟨8, by decide⟩ opening :=
    @Opening.list _ ['\t'] _ _ _ (List.all_eq_true.mp rfl) (.cons hplus (.cons hone .nil))
      (@Opening.list _ [] _ _ _ nofun (.cons htrue .nil) (.blank (List.all_eq_true.mp rfl)))
  have hopen : EndsOpen opening := by
    intro c hc
    cases hc
    exact .inl rfl
  have hbody : Body ['a', '\n'] ['a', '\\', 'n'] :=
    .plain (by decide) (by decide) (.escape (by decide) .nil)
  obtain ⟨hnumber, hescape, hunclosed, -⟩ :=
    malformed_literal_reported ⟨8, by decide⟩ hopening hopen
  refine ⟨hopening, hopen, ?_, ?_, ?_⟩
  · have hnumeral : Numeral 128 ['1', '2', '8'] :=
      ⟨List.cons_ne_nil _ _, List.all_eq_true.mp rfl, rfl⟩
    have htext : "\t(+ -1( #t 128#(\""
        = String.ofList (opening ++ (['1', '2', '8'] ++ "#(\"".toList)) := rfl
    rw [htext]
    exact hnumber _ _ (.natural hnumeral rfl) rfl
  · have htext : "\t(+ -1( #t \"a\\n\\q\" 999"
        = String.ofList (opening ++ '"' :: (['a', '\\', 'n'] ++ '\\' :: "q\" 999".toList)) := rfl
    have hq : ∀ c ∈ "q\" 999".toList.head?, c ∉ ['n', 't', '\\', '"'] := by
      intro c hc
      cases hc
      decide
    rw [htext]
    exact hescape _ _ _ hbody hq
  · have hbody : Body "a\"))".toList "a\\\"))".toList :=
      .plain (by decide) (by decide) (.escape (by decide)
        (.plain (by decide) (by decide) (.plain (by decide) (by decide) .nil)))
    have htext : "\t(+ -1( #t \"a\\\"))"
        = String.ofList (opening ++ '"' :: "a\\\"))".toList) := rfl
    rw [htext]
    exact hunclosed _ _ hbody

end ScopeLisp.Grammar
