import ScopeLisp.Proofs.Combinators
import ScopeLisp.Proofs.Grammar.Forms

/-!
# Reading atoms

Each parser of an atom is maximal: it reads a form of its kind and as much of it as there is, and
so what follows the form does not continue it. The four kinds of atoms cannot be mistaken for one
another, except that `NIL` looks like a name, so the order in which they are tried matters there.

* `number_eq_ok_iff`, `string_eq_ok_iff`, `literal_eq_ok_iff`, `identifier_eq_ok_iff`: what the
  four parsers read.
* `atom_eq_ok_iff`: an atom is read exactly if one is written.
-/

namespace ScopeLisp.Grammar

open Reader

/-! ## Maximal runs of characters -/

theorem takeWhile_dropWhile_iff {p : Char → Bool} {source body rest : List Char} :
    source.takeWhile p = body ∧ source.dropWhile p = rest ↔
      source = body ++ rest ∧ (∀ c ∈ body, p c = true) ∧ ∀ c ∈ rest.head?, p c = false := by
  constructor
  · rintro ⟨rfl, rfl⟩
    refine ⟨List.takeWhile_append_dropWhile.symm, List.all_eq_true.mp List.all_takeWhile, ?_⟩
    intro c hc
    have hstop := List.head?_dropWhile_not p source
    rwa [Option.mem_def.mp hc] at hstop
  · rintro ⟨rfl, hbody, hrest⟩
    rw [List.takeWhile_append_of_pos hbody, List.dropWhile_append_of_pos hbody]
    cases rest with
    | nil => exact ⟨List.append_nil body, rfl⟩
    | cons c more =>
      have hc : p c = false := hrest c rfl
      rw [List.takeWhile_cons_of_neg (by rw [hc]; exact Bool.false_ne_true),
        List.dropWhile_cons_of_neg (by rw [hc]; exact Bool.false_ne_true)]
      exact ⟨List.append_nil body, rfl⟩

theorem startsWithDigit_eq_false_iff {source : List Char} :
    startsWithDigit source = false ↔ ∀ c ∈ source.head?, isDigit c = false := by
  cases source <;> simp [startsWithDigit]

theorem continuesName_eq_false_iff {source : List Char} :
    continuesName source = false ↔ ∀ c ∈ source.head?, isNameChar c = false := by
  cases source <;> simp [continuesName]

/-- What is left after the leading blanks does not begin with a blank. -/
theorem skipBlanks_eq_iff {source rest : List Char} :
    skipBlanks source = rest ↔
      ∃ gap, source = gap ++ rest ∧ (∀ c ∈ gap, isBlank c = true) ∧
        ∀ c ∈ rest.head?, isBlank c = false := by
  constructor
  · intro h
    exact ⟨_, takeWhile_dropWhile_iff.mp ⟨rfl, h⟩⟩
  · rintro ⟨gap, hsplit⟩
    exact (takeWhile_dropWhile_iff.mpr hsplit).2

/-- A form stands after some blanks exactly if it stands where the blanks end. -/
theorem skipBlanks_eq_append_iff {source form rest : List Char}
    (hform : ∃ c more, form = c :: more ∧ isBlank c = false) :
    skipBlanks source = form ++ rest ↔
      ∃ gap, source = gap ++ form ++ rest ∧ ∀ c ∈ gap, isBlank c = true := by
  obtain ⟨c, more, rfl, hc⟩ := hform
  have hhead : ∀ d ∈ (c :: more ++ rest).head?, isBlank d = false :=
    fun d hd => Option.some.inj hd ▸ hc
  rw [skipBlanks_eq_iff]
  constructor
  · rintro ⟨gap, hsource, hgap, -⟩
    exact ⟨gap, hsource.trans (List.append_assoc ..).symm, hgap⟩
  · rintro ⟨gap, hsource, hgap⟩
    exact ⟨gap, hsource.trans (List.append_assoc ..), hgap, hhead⟩

/-! ## Numbers -/

theorem numeralValue_eq_ofDigits (numeral : List Char) :
    numeralValue numeral = Nat.ofDigits 10 (numeral.reverse.map digitWorth) := by
  rw [Nat.ofDigits_eq_foldr, List.map_reverse, List.foldr_reverse, List.foldl_map, numeralValue]
  congr 1
  funext acc c
  exact Nat.add_comm _ _

theorem splitSign_of_digit {c : Char} (h : isDigit c = true) (rest : List Char) :
    splitSign (c :: rest) = (false, c :: rest) := by
  unfold splitSign
  split
  · rename_i heq
    cases heq
    cases h
  · rfl

theorem splitSign_cases (source : List Char) :
    (∃ rest, source = '-' :: rest ∧ splitSign source = (true, rest)) ∨
      splitSign source = (false, source) := by
  unfold splitSign
  split
  · exact .inl ⟨_, rfl, rfl⟩
  · exact .inr rfl

/-- What the parser of numbers reads once the sign is split off. -/
theorem number_eq_ok_iff_of_splitSign {width : Width} {source unsigned rest : List Char}
    {negative : Bool} {t : Term} (h : splitSign (skipBlanks source) = (negative, unsigned)) :
    number (.ok width) source = .ok ⟨t, rest⟩ ↔
      ∃ n numeral, unsigned = numeral ++ rest ∧ Numeral n numeral ∧
        width.holds (signed negative n) = true ∧ t = .number (signed negative n) ∧
        startsWithDigit rest = false := by
  simp only [number, h]
  constructor
  · intro hread
    split at hread
    · cases hread
    · rename_i hsome
      split at hread
      · rename_i hholds
        cases hread
        obtain ⟨happend, hdigits, hstop⟩ := takeWhile_dropWhile_iff.mp ⟨rfl, rfl⟩
        exact ⟨_, _, happend, ⟨hsome, hdigits, (numeralValue_eq_ofDigits _).symm⟩, hholds, rfl,
          startsWithDigit_eq_false_iff.mpr hstop⟩
      · cases hread
  · rintro ⟨n, numeral, happend, hnumeral, hholds, rfl, hstop⟩
    have hvalue : numeralValue numeral = n :=
      (numeralValue_eq_ofDigits numeral).trans hnumeral.ofDigits_eq
    obtain ⟨htake, hdrop⟩ := takeWhile_dropWhile_iff.mpr
      ⟨happend, hnumeral.isDigit, startsWithDigit_eq_false_iff.mp hstop⟩
    rw [htake, hdrop]
    split
    · exact absurd rfl hnumeral.ne_nil
    · rw [hvalue, if_pos hholds]

theorem number_eq_ok_iff {width : Width} {source rest : List Char} {t : Term} :
    number (.ok width) source = .ok ⟨t, rest⟩ ↔
      ∃ n form, t = .number n ∧ skipBlanks source = form ++ rest ∧
        Atom width (.number n) form ∧ startsWithDigit rest = false := by
  constructor
  · intro h
    rcases splitSign_cases (skipBlanks source) with ⟨unsigned, hsource, hsplit⟩ | hsplit
    · obtain ⟨n, numeral, rfl, hnumeral, hholds, rfl, hstop⟩ :=
        (number_eq_ok_iff_of_splitSign hsplit).mp h
      exact ⟨_, '-' :: numeral, rfl, hsource, .negative hnumeral hholds, hstop⟩
    · obtain ⟨n, numeral, hsource, hnumeral, hholds, rfl, hstop⟩ :=
        (number_eq_ok_iff_of_splitSign hsplit).mp h
      exact ⟨_, numeral, rfl, hsource, .natural hnumeral hholds, hstop⟩
  · rintro ⟨n, form, rfl, hsource, hatom, hstop⟩
    cases hatom with
    | @natural n _ hnumeral hholds =>
      obtain ⟨c, more, rfl, hc⟩ := hnumeral.exists_cons
      have hsplit : splitSign (skipBlanks source) = (false, c :: more ++ rest) := by
        rw [hsource]
        exact splitSign_of_digit hc (more ++ rest)
      exact (number_eq_ok_iff_of_splitSign hsplit).mpr
        ⟨n, c :: more, rfl, hnumeral, hholds, rfl, hstop⟩
    | @negative n numeral hnumeral hholds =>
      have hsplit : splitSign (skipBlanks source) = (true, numeral ++ rest) := by
        rw [hsource]
        rfl
      exact (number_eq_ok_iff_of_splitSign hsplit).mpr
        ⟨n, numeral, rfl, hnumeral, hholds, rfl, hstop⟩
    | literal hliteral => cases hliteral

/-- Without digits there is no number, with or without a sign. -/
theorem declines_number {width : WidthSetting} {source : List Char}
    (h : startsWithDigit (splitSign (skipBlanks source)).2 = false) :
    Declines (number width) source := by
  have hnone : (splitSign (skipBlanks source)).2.takeWhile isDigit = [] :=
    (takeWhile_dropWhile_iff.mpr
      ⟨(List.nil_append _).symm, nofun, startsWithDigit_eq_false_iff.mp h⟩).1
  have hfail : number width source = failAt .notANumber (skipBlanks source) := by
    simp only [number, hnone]
  exact declines_of_failAt hfail

/-! ## Strings -/

theorem unescape?_eq_some_iff {c d : Char} :
    unescape? c = some d ↔
      (c, d) ∈ [('n', '\n'), ('t', '\t'), ('\\', '\\'), ('"', '"')] := by
  simp only [List.mem_cons, List.not_mem_nil, or_false, Prod.mk.injEq]
  unfold unescape?
  split <;> simp_all [eq_comm]

theorem exists_body_of_stringBody {source : List Char} {parsed : Parsed (List Char)}
    (h : stringBody source = .ok parsed) :
    ∃ body, source = body ++ '"' :: parsed.rest ∧ Body parsed.value body := by
  fun_induction stringBody source generalizing parsed with
  | case1 | case3 | case4 => cases h
  | case2 rest =>
    cases h
    exact ⟨[], rfl, .nil⟩
  | case5 escaped rest meant hmeant _ ih =>
    obtain ⟨inner, hinner, rfl⟩ := exists_of_map_ok h
    obtain ⟨body, rfl, hbody⟩ := ih hinner
    exact ⟨'\\' :: escaped :: body, rfl, .escape (unescape?_eq_some_iff.mp hmeant) hbody⟩
  | case6 c rest hquote hslash ih =>
    obtain ⟨inner, hinner, rfl⟩ := exists_of_map_ok h
    obtain ⟨body, rfl, hbody⟩ := ih hinner
    exact ⟨c :: body, rfl, .plain hquote hslash hbody⟩

theorem Body.stringBody_eq {meant body : List Char} (h : Body meant body) (rest : List Char) :
    stringBody (body ++ '"' :: rest) = .ok ⟨meant, rest⟩ := by
  induction h with
  | nil =>
    rw [List.nil_append, stringBody.eq_def]
    rfl
  | plain hquote hslash _ ih =>
    rw [List.cons_append, stringBody.eq_def]
    simp only [if_neg hquote, if_neg hslash, ih]
    rfl
  | escape hescape _ ih =>
    rw [List.cons_append, List.cons_append, stringBody.eq_def]
    simp only [unescape?_eq_some_iff.mpr hescape, ih]
    rfl

theorem string_eq_ok_iff {source rest : List Char} {t : Term} :
    string source = .ok ⟨t, rest⟩ ↔
      ∃ meant body, t = .string (String.ofList meant) ∧
        skipBlanks source = '"' :: (body ++ ['"']) ++ rest ∧ Body meant body := by
  rw [string]
  constructor
  · intro h
    split at h
    · rename_i inside hsource
      obtain ⟨inner, hinner, hparsed⟩ := exists_of_map_ok h
      obtain ⟨body, rfl, hbody⟩ := exists_body_of_stringBody hinner
      cases hparsed
      refine ⟨_, body, rfl, ?_, hbody⟩
      rw [hsource, List.cons_append, List.append_assoc, List.singleton_append]
    · cases h
  · rintro ⟨meant, body, rfl, hsource, hbody⟩
    rw [List.cons_append, List.append_assoc, List.singleton_append] at hsource
    simp only [hsource, hbody.stringBody_eq rest]
    rfl

theorem declines_string {source : List Char} (h : (skipBlanks source).head? ≠ some '"') :
    Declines string source := by
  have hfail : string source = failAt .notAString (skipBlanks source) := by
    rw [string]
    split
    · rename_i inside hsource
      rw [hsource] at h
      exact absurd rfl h
    · rfl
  exact declines_of_failAt hfail

/-! ## Literals -/

theorem mem_literals_iff {form : List Char} {t : Term} :
    (form, t) ∈ literals ↔ Literal t form := by
  simp only [literals, List.mem_cons, List.not_mem_nil, or_false, Prod.mk.injEq]
  constructor
  · rintro (⟨rfl, rfl⟩ | ⟨rfl, rfl⟩ | ⟨rfl, rfl⟩)
    · exact .yes
    · exact .no
    · exact .unit
  · intro h
    cases h <;> simp

/-- No literal is the beginning of another, so the first one found is the only one. -/
theorem Literal.find?_eq {form rest : List Char} {t : Term} (h : Literal t form)
    (hstop : continuesName rest = false) :
    literals.find? (fun entry => startsWithWord entry.1 (form ++ rest)) = some (form, t) := by
  cases h <;> simp [literals, startsWithWord, hstop]

theorem literal_eq_ok_iff {source rest : List Char} {t : Term} :
    literal source = .ok ⟨t, rest⟩ ↔
      ∃ form, skipBlanks source = form ++ rest ∧ Literal t form ∧ continuesName rest = false := by
  rw [literal]
  constructor
  · intro h
    split at h
    · rename_i spelling term hfound
      have hword := List.find?_some hfound
      have hmem := List.mem_of_find?_eq_some hfound
      simp only [startsWithWord, Bool.and_eq_true, List.isPrefixOf_iff_prefix,
        Bool.not_eq_true'] at hword
      cases h
      refine ⟨spelling, ?_, mem_literals_iff.mp hmem, hword.2⟩
      exact (List.prefix_iff_eq_append.mp hword.1).symm
    · cases h
  · rintro ⟨form, hsource, hliteral, hstop⟩
    simp only [hsource, hliteral.find?_eq hstop, List.drop_left]

/-- Reading a literal never fails for good. -/
theorem declines_literal {source : List Char} (h : ∀ t rest, literal source ≠ .ok ⟨t, rest⟩) :
    Declines literal source := by
  have hfail : literal source = failAt .notALiteral (skipBlanks source) := by
    rw [literal] at h ⊢
    split
    · rename_i spelling term hfound
      simp only [hfound] at h
      exact absurd rfl (h term _)
    · rfl
  exact declines_of_failAt hfail

/-! ## Names -/

theorem Word.isNameChar {form : List Char} (h : Word form) :
    ∀ c ∈ form, Reader.isNameChar c = true := by
  obtain ⟨hstart, hrest, -⟩ := h
  exact List.forall_mem_cons.mpr ⟨isNameChar_of_isNameStart hstart, hrest⟩

/-- A word that ends where it ends takes up all the characters of a name. -/
theorem takeWhile_isNameChar {source form rest : List Char} (hsource : source = form ++ rest)
    (hform : ∀ c ∈ form, Reader.isNameChar c = true) (hstop : continuesName rest = false) :
    source.takeWhile Reader.isNameChar = form :=
  (takeWhile_dropWhile_iff.mpr ⟨hsource, hform, continuesName_eq_false_iff.mp hstop⟩).1

theorem startsWithDigit_append {chars rest : List Char} (h : continuesName rest = false) :
    startsWithDigit (chars ++ rest) = startsWithDigit chars := by
  cases chars with
  | cons c more => rfl
  | nil =>
    cases rest with
    | nil => rfl
    | cons c more =>
      rw [continuesName, Reader.isNameChar, Bool.or_eq_false_iff] at h
      exact h.2

theorem identifier_eq_ok_iff {source rest : List Char} {t : Term} :
    identifier source = .ok ⟨t, rest⟩ ↔
      ∃ form, t = .identifier (String.ofList form) ∧ skipBlanks source = form ++ rest ∧
        Word form ∧ continuesName rest = false := by
  rw [identifier]
  constructor
  · intro h
    split at h
    · cases h
    · rename_i c more hsource
      split at h
      · cases h
      · rename_i hstart
        split at h
        · cases h
        · rename_i hsign
          generalize htake : more.takeWhile Reader.isNameChar = chars at h
          generalize hdrop : more.dropWhile Reader.isNameChar = after at h
          cases h
          obtain ⟨rfl, hchars, hstop⟩ := takeWhile_dropWhile_iff.mp ⟨htake, hdrop⟩
          rw [← continuesName_eq_false_iff] at hstop
          rw [startsWithDigit_append hstop, Bool.and_eq_true, beq_iff_eq] at hsign
          rw [Bool.not_eq_true', Bool.not_eq_false] at hstart
          exact ⟨c :: chars, rfl, hsource, .intro hstart hchars hsign, hstop⟩
  · rintro ⟨form, rfl, hsource, @⟨c, chars, hstart, hchars, hsign⟩, hstop⟩
    obtain ⟨htake, hdrop⟩ := takeWhile_dropWhile_iff.mpr
      ⟨rfl, hchars, continuesName_eq_false_iff.mp hstop⟩
    rw [← startsWithDigit_append hstop, ← beq_iff_eq, ← Bool.and_eq_true] at hsign
    rw [List.cons_append] at hsource
    simp only [hsource, hstart, htake, hdrop, Bool.not_true, Bool.false_eq_true, if_false,
      if_neg hsign]

theorem declines_identifier {source rest : List Char} {c : Char}
    (h : skipBlanks source = c :: rest) (hc : isNameStart c = false) :
    Declines identifier source := by
  have hfail : identifier source = failAt .invalidIdentifier (c :: rest) := by
    simp only [identifier, h, hc, Bool.not_false, if_true]
  exact declines_of_failAt hfail

/-! ## Atoms -/

theorem isDigit_of_isNameStart {c : Char} (h : isNameStart c = true) : isDigit c = false := by
  cases hdigit : isDigit c with
  | false => rfl
  | true =>
    rw [isDigit, List.contains_iff_mem, digits] at hdigit
    simp only [List.mem_cons, List.not_mem_nil, or_false] at hdigit
    rcases hdigit with rfl | rfl | rfl | rfl | rfl | rfl | rfl | rfl | rfl | rfl <;> cases h

theorem declines_number_of_cons {width : WidthSetting} {source rest : List Char} {c : Char}
    (h : skipBlanks source = c :: rest) (hc : isDigit c = false)
    (hsign : ¬ (c = '-' ∧ startsWithDigit rest = true)) : Declines (number width) source := by
  refine declines_number ?_
  rw [h]
  rcases splitSign_cases (c :: rest) with ⟨unsigned, heq, hsplit⟩ | hsplit
  · cases heq
    rw [hsplit]
    exact Bool.not_eq_true _ ▸ fun hdigit => hsign ⟨rfl, hdigit⟩
  · rw [hsplit]
    exact hc

theorem declines_string_of_cons {source rest : List Char} {c : Char}
    (h : skipBlanks source = c :: rest) (hc : c ≠ '"') : Declines string source := by
  refine declines_string fun hhead => hc ?_
  rw [h] at hhead
  exact Option.some.inj hhead

/-- No literal stands where a name stands. -/
theorem declines_literal_of_word {source form rest : List Char}
    (hsource : skipBlanks source = form ++ rest) (hword : Word form)
    (hform : form ≠ ['N', 'I', 'L']) (hstop : continuesName rest = false) :
    Declines literal source := by
  have hhash : ∀ more, skipBlanks source ≠ '#' :: more := by
    intro more hmore
    obtain ⟨hstart, -, -⟩ := hword
    cases hsource.symm.trans hmore
    cases hstart
  refine declines_literal fun t rest' h => ?_
  obtain ⟨spelling, hsource', hliteral, hstop'⟩ := literal_eq_ok_iff.mp h
  cases hliteral with
  | yes => exact hhash _ hsource'
  | no => exact hhash _ hsource'
  | unit =>
    have hunit : ∀ c ∈ ['N', 'I', 'L'], isNameChar c = true := List.all_eq_true.mp rfl
    have htake := takeWhile_isNameChar hsource' hunit hstop'
    rw [takeWhile_isNameChar hsource hword.isNameChar hstop] at htake
    exact hform htake

theorem Literal.endsAt_iff {form rest : List Char} {t : Term} (h : Literal t form) :
    EndsAt t rest ↔ continuesName rest = false := by
  cases h <;> exact Iff.rfl

theorem exists_atom_of_atom {width : Width} {source : List Char} {parsed : Parsed Term}
    (h : atom (.ok width) source = .ok parsed) :
    ∃ form, skipBlanks source = form ++ parsed.rest ∧ Atom width parsed.value form ∧
      EndsAt parsed.value parsed.rest := by
  obtain ⟨t, rest⟩ := parsed
  simp only [atom, alternative_cons_eq_ok_iff, alternative_nil_ne_ok, and_false, or_false] at h
  rcases h with hnumber | ⟨-, hstring | ⟨-, hliteral | ⟨hnoLiteral, hname⟩⟩⟩
  · obtain ⟨n, form, rfl, hsource, hatom, hstop⟩ := number_eq_ok_iff.mp hnumber
    exact ⟨form, hsource, hatom, hstop⟩
  · obtain ⟨meant, body, rfl, hsource, hbody⟩ := string_eq_ok_iff.mp hstring
    exact ⟨_, hsource, .string hbody, trivial⟩
  · obtain ⟨form, hsource, hform, hstop⟩ := literal_eq_ok_iff.mp hliteral
    exact ⟨form, hsource, .literal hform, hform.endsAt_iff.mpr hstop⟩
  · obtain ⟨form, rfl, hsource, hword, hstop⟩ := identifier_eq_ok_iff.mp hname
    refine ⟨form, hsource, .name hword ?_, hstop⟩
    -- the unit value would have been read as a literal before
    rintro rfl
    exact hnoLiteral.ne_ok ⟨.nil, rest⟩ (literal_eq_ok_iff.mpr ⟨_, hsource, .unit, hstop⟩)

theorem Atom.atom_eq {width : Width} {source form rest : List Char} {t : Term}
    (h : Atom width t form) (hsource : skipBlanks source = form ++ rest) (hends : EndsAt t rest) :
    atom (.ok width) source = .ok ⟨t, rest⟩ := by
  simp only [atom, alternative_cons_eq_ok_iff, alternative_nil_ne_ok, and_false, or_false]
  cases h with
  | natural hnumeral hholds =>
    exact .inl (number_eq_ok_iff.mpr ⟨_, form, rfl, hsource, .natural hnumeral hholds, hends⟩)
  | negative hnumeral hholds =>
    exact .inl (number_eq_ok_iff.mpr ⟨_, _, rfl, hsource, .negative hnumeral hholds, hends⟩)
  | string hbody =>
    refine .inr ⟨declines_number_of_cons hsource (by decide) nofun, .inl ?_⟩
    exact string_eq_ok_iff.mpr ⟨_, _, rfl, hsource, hbody⟩
  | literal hliteral =>
    have hread := literal_eq_ok_iff.mpr
      ⟨form, hsource, hliteral, hliteral.endsAt_iff.mp hends⟩
    cases hliteral
    all_goals
      refine .inr ⟨declines_number_of_cons hsource (by decide) nofun, .inr ⟨?_, .inl hread⟩⟩
      exact declines_string_of_cons hsource (by decide)
  | name hword hform =>
    have hliteral := declines_literal_of_word hsource hword hform hends
    have hname := identifier_eq_ok_iff.mpr ⟨form, rfl, hsource, hword, hends⟩
    obtain @⟨c, chars, hstart, -, hsign⟩ := hword
    rw [← startsWithDigit_append hends] at hsign
    have hquote : c ≠ '"' := by
      rintro rfl
      cases hstart
    exact .inr ⟨declines_number_of_cons hsource (isDigit_of_isNameStart hstart) hsign,
      .inr ⟨declines_string_of_cons hsource hquote, .inr ⟨hliteral, hname⟩⟩⟩

theorem atom_eq_ok_iff {width : Width} {source rest : List Char} {t : Term} :
    atom (.ok width) source = .ok ⟨t, rest⟩ ↔
      ∃ form, skipBlanks source = form ++ rest ∧ Atom width t form ∧ EndsAt t rest := by
  constructor
  · exact exists_atom_of_atom
  · rintro ⟨form, hsource, hatom, hends⟩
    exact hatom.atom_eq hsource hends

/-- No atom begins with a parenthesis. -/
theorem declines_atom {width : WidthSetting} {source rest : List Char} {c : Char}
    (h : skipBlanks source = c :: rest) (hc : c = '(' ∨ c = ')') :
    Declines (atom width) source := by
  have hliteral : Declines literal source := by
    refine declines_literal fun t rest' hread => ?_
    obtain ⟨spelling, hsource, hliteral, -⟩ := literal_eq_ok_iff.mp hread
    rw [h] at hsource
    cases hliteral <;> rcases hc with rfl | rfl <;> cases hsource
  have hclasses : isDigit c = false ∧ c ≠ '-' ∧ c ≠ '"' ∧ isNameStart c = false := by
    rcases hc with rfl | rfl <;> decide
  obtain ⟨hdigit, hminus, hquote, hstart⟩ := hclasses
  refine declines_alternative fun p hp => ?_
  simp only [List.mem_cons, List.not_mem_nil, or_false] at hp
  rcases hp with rfl | rfl | rfl | rfl
  · exact declines_number_of_cons h hdigit fun hsign => hminus hsign.1
  · exact declines_string_of_cons h hquote
  · exact hliteral
  · exact declines_identifier h hstart

end ScopeLisp.Grammar
