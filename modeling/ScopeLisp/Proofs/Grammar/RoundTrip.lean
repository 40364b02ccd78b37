import ScopeLisp.Proofs.Grammar.Reading
import ScopeLisp.Proofs.Rendering.Spelling

/-!
# Reading undoes writing

A term is readable if its numbers fit the width, its names have the shape of names, and nothing
foreign is in it. To write a term means to give its one-line form, with the parentheses of the
reader in place of the brackets. What is written for a readable term is one of its written forms,
because the digits, the escapes and the single spaces of the printer are among those that the
grammar allows; and whatever has a written form is readable. So the readable terms are those that
the reader can produce, and each of them comes back from what is written for it.

The reader has no limit to the digits of a number, and the printer has one. Under a width of many
bits there are readable terms that the printer refuses, although the text that it does not give
would be read as the term.

* `Term.Only`, `Readable`: what a term may hold.
* `Term.render_eq_renderWith`: rendering and writing differ in the brackets only.
* `Readable.written`, `Written.readable`: readable terms and the grammar.
* `parse_write_of_readable`: reading undoes writing, and writing fails for long numbers only.
-/

namespace ScopeLisp

namespace Term

/-! ## What a term holds -/

/-- All numbers and names in the term, at any depth, are among the given ones, and nothing
foreign is in it. -/
inductive Only (numbers : Int → Prop) (names : String → Prop) : Term → Prop
  | nil : Only numbers names .nil
  | boolean (b : Bool) : Only numbers names (.boolean b)
  | number {n : Int} : numbers n → Only numbers names (.number n)
  | string (s : String) : Only numbers names (.string s)
  | identifier {name : String} : names name → Only numbers names (.identifier name)
  | list {terms : List Term} :
    (∀ t ∈ terms, Only numbers names t) → Only numbers names (.list terms)

theorem Only.isProper {numbers : Int → Prop} {names : String → Prop} {t : Term}
    (h : Only numbers names t) : t.isProper = true := by
  induction h with
  | nil | boolean | number | string | identifier => rfl
  | list _ ih =>
    rw [Term.isProper, isProperAll_iff]
    exact ih

/-! ## Brackets -/

mutual

/-- The spelled-out form of a term with the given brackets around the elements of lists. -/
def bracketedChars (opening closing : Char) : Term → List Char
  | .list terms => opening :: Text.spaced (bracketedCharsAll opening closing terms) ++ [closing]
  | t => t.spelledChars

/-- The spelled-out forms of several terms with the given brackets. -/
def bracketedCharsAll (opening closing : Char) : List Term → List (List Char)
  | [] => []
  | t :: terms => bracketedChars opening closing t :: bracketedCharsAll opening closing terms

end

theorem bracketedCharsAll_eq_map (opening closing : Char) (terms : List Term) :
    bracketedCharsAll opening closing terms = terms.map (bracketedChars opening closing) := by
  induction terms with
  | nil => rfl
  | cons t terms ih => rw [bracketedCharsAll, ih, List.map_cons]

mutual

/-- The one-line form of a term, rendered with the given brackets around the elements of lists. -/
def renderCharsWith (opening closing : Char) : Term → Except Misuse (List Char)
  | .list terms => do
    let pieces ← renderCharsAllWith opening closing terms
    return opening :: Text.spaced pieces ++ [closing]
  | t => t.renderChars

/-- The one-line forms of several terms with the given brackets. -/
def renderCharsAllWith (opening closing : Char) : List Term → Except Misuse (List (List Char))
  | [] => .ok []
  | t :: ts => do
    let piece ← renderCharsWith opening closing t
    let pieces ← renderCharsAllWith opening closing ts
    return piece :: pieces

end

mutual

theorem renderChars_eq_renderCharsWith : ∀ t : Term, t.renderChars = t.renderCharsWith '[' ']'
  | .list ts => by
    rw [renderChars, renderCharsWith, renderCharsAll_eq_renderCharsAllWith ts]
  | .nil | .boolean _ | .number _ | .string _ | .identifier _ | .foreign _ => rfl

theorem renderCharsAll_eq_renderCharsAllWith : ∀ ts : List Term,
    renderCharsAll ts = renderCharsAllWith '[' ']' ts
  | [] => rfl
  | t :: ts => by
    rw [renderCharsAll, renderCharsAllWith, renderChars_eq_renderCharsWith t,
      renderCharsAll_eq_renderCharsAllWith ts]

end

mutual

theorem renderCharsWith_eq (opening closing : Char) : ∀ t : Term, t.isProper = true →
    t.renderCharsWith opening closing
      = unlessOverlong t.isWritable (t.bracketedChars opening closing)
  | .list ts, h => by
    rw [renderCharsWith, renderCharsAllWith_eq opening closing ts h]
    exact unlessOverlong_map ..
  | .nil, h | .boolean _, h | .number _, h | .string _, h | .identifier _, h => renderChars_eq _ h
  | .foreign _, h => by cases h

theorem renderCharsAllWith_eq (opening closing : Char) : ∀ ts : List Term,
    isProperAll ts = true → renderCharsAllWith opening closing ts
      = unlessOverlong (isWritableAll ts) (bracketedCharsAll opening closing ts)
  | [], _ => rfl
  | t :: ts, h => by
    rw [isProperAll, Bool.and_eq_true] at h
    rw [renderCharsAllWith, renderCharsWith_eq opening closing t h.1,
      renderCharsAllWith_eq opening closing ts h.2, isWritableAll]
    exact unlessOverlong_bind _ _ _ (unlessOverlong_map ..)

end

/-- The one-line form of a term with the given brackets around the elements of lists. -/
def renderWith (opening closing : Char) (t : Term) : Except Misuse String :=
  (t.renderCharsWith opening closing).map String.ofList

/-- Rendering puts square brackets around the elements of lists. -/
theorem render_eq_renderWith (t : Term) : t.render = t.renderWith '[' ']' := by
  rw [render, renderWith, renderChars_eq_renderCharsWith]

/-- The text in which the reader finds the term: its form with parentheses around the elements of
lists, and with all digits of its numbers. -/
def write (t : Term) : String := String.ofList (t.bracketedChars '(' ')')

theorem renderWith_eq_write {t : Term} (h : t.isProper = true) :
    t.renderWith '(' ')' = unlessOverlong t.isWritable t.write := by
  rw [renderWith, renderCharsWith_eq _ _ t h, unlessOverlong_map, write]

theorem renderWith_of_isWritable {t : Term} (h : t.isProper = true) (hw : t.isWritable = true) :
    t.renderWith '(' ')' = .ok t.write := by
  rw [renderWith_eq_write h, hw]
  rfl

theorem renderWith_of_not_isWritable {t : Term} (h : t.isProper = true)
    (hw : t.isWritable = false) : t.renderWith '(' ')' = .error .overlong := by
  rw [renderWith_eq_write h, hw]
  rfl

end Term

namespace Grammar

open Reader

/-! ## Readable terms -/

/-- The reader takes the text for a name. -/
def IsName (name : String) : Prop := Word name.toList ∧ name ≠ "NIL"

/-- The numbers in the term fit the width, and its names are names for the reader. -/
def Readable (width : Width) : Term → Prop :=
  Term.Only (fun n => width.low ≤ n ∧ n ≤ width.high) IsName

theorem isName_iff_ofList {form : List Char} :
    IsName (String.ofList form) ↔ Word form ∧ form ≠ ['N', 'I', 'L'] := by
  have hunit : String.ofList form = "NIL" ↔ form = ['N', 'I', 'L'] := by
    rw [← String.toList_inj, String.toList_ofList]
    exact Iff.rfl
  rw [IsName, String.toList_ofList, Ne, hunit]

section Written

variable {width : Width} {t : Term}

theorem Atom.readable {form : List Char} (h : Atom width t form) : Readable width t := by
  cases h with
  | natural _ hholds => exact .number (Width.holds_iff.mp hholds)
  | negative _ hholds => exact .number (Width.holds_iff.mp hholds)
  | string _ => exact .string _
  | literal hliteral =>
    cases hliteral with
    | yes | no => exact .boolean _
    | unit => exact .nil
  | name hword hunit => exact .identifier (isName_iff_ofList.mpr ⟨hword, hunit⟩)

theorem Elements.exists_written {terms : List Term} {form : List Char}
    (h : Elements width terms form) : ∀ t ∈ terms, ∃ form, Written width t form := by
  induction terms generalizing form with
  | nil => exact nofun
  | cons first terms ih =>
    cases h with
    | cons _ hwritten _ hrest =>
      intro t ht
      rcases List.mem_cons.mp ht with rfl | ht
      · exact ⟨_, hwritten⟩
      · exact ih hrest t ht

/-- Whatever has a written form is readable. -/
theorem Written.readable {form : List Char} (h : Written width t form) : Readable width t := by
  induction t using Term.induct generalizing form with
  | nil | boolean | number | string | identifier | foreign =>
    cases h with
    | atom hatom => exact hatom.readable
  | list terms ih =>
    cases h with
    | atom hatom => exact hatom.readable
    | list helements =>
      refine .list fun t ht => ?_
      obtain ⟨form, hform⟩ := helements.exists_written t ht
      exact ih t ht hform

/-! ## What is written for atoms -/

theorem digitWorth_digitChar {n : Nat} (h : n < 10) : digitWorth (Text.digitChar n) = n := by
  revert n
  decide

theorem isDigit_digitChar {n : Nat} (h : n < 10) : isDigit (Text.digitChar n) = true := by
  revert n
  decide

theorem numeral_natDigits (n : Nat) : Numeral n (Text.natDigits n) where
  ne_nil := Text.natDigits_ne_nil n
  isDigit := by
    fun_induction Text.natDigits n with
    | case1 n hsmall =>
      intro c hc
      rw [List.mem_singleton.mp hc]
      exact isDigit_digitChar hsmall
    | case2 n _ ih =>
      intro c hc
      rcases List.mem_append.mp hc with hc | hc
      · exact ih c hc
      · rw [List.mem_singleton.mp hc]
        exact isDigit_digitChar (Nat.mod_lt _ (by decide))
  ofDigits_eq := by
    fun_induction Text.natDigits n with
    | case1 n hsmall =>
      rw [List.reverse_singleton, List.map_singleton, Nat.ofDigits_singleton,
        digitWorth_digitChar hsmall]
    | case2 n _ ih =>
      have hlast : digitWorth (Text.digitChar (n % 10)) = n % 10 :=
        digitWorth_digitChar (Nat.mod_lt _ (by decide))
      rw [List.reverse_append, List.reverse_singleton, List.singleton_append, List.map_cons,
        Nat.ofDigits_cons, ih, hlast]
      omega

theorem atom_intDigits {n : Int} (h : width.low ≤ n ∧ n ≤ width.high) :
    Atom width (.number n) (Text.intDigits n) := by
  have hholds : width.holds n = true := Width.holds_iff.mpr h
  cases n with
  | ofNat n => exact .natural (numeral_natDigits n) hholds
  | negSucc n => exact .negative (numeral_natDigits (n + 1)) hholds

/-- Quoting escapes what must not stand between quotes as it is. -/
theorem body_flatMap_quoteChar (meant : List Char) : Body meant (meant.flatMap quoteChar) := by
  induction meant with
  | nil => exact .nil
  | cons c meant ih =>
    rw [List.flatMap_cons]
    unfold quoteChar
    split
    case isTrue hslash =>
      subst hslash
      exact .escape (by decide) ih
    case isFalse hslash =>
      split
      case isTrue hquote =>
        subst hquote
        exact .escape (by decide) ih
      case isFalse hquote =>
        split
        case isTrue hnewline =>
          subst hnewline
          exact .escape (by decide) ih
        case isFalse =>
          split
          case isTrue htab =>
            subst htab
            exact .escape (by decide) ih
          case isFalse => exact .plain hquote hslash ih

theorem atom_quoteChars (s : String) : Atom width (.string s) (quoteChars s.toList) := by
  have hatom : Atom width (.string (String.ofList s.toList)) (quoteChars s.toList) :=
    .string (body_flatMap_quoteChar s.toList)
  rwa [String.ofList_toList] at hatom

theorem atom_name {name : String} (h : IsName name) :
    Atom width (.identifier name) name.toList := by
  rw [← name.ofList_toList, isName_iff_ofList] at h
  have hatom : Atom width (.identifier (String.ofList name.toList)) name.toList :=
    .name h.1 h.2
  rwa [String.ofList_toList] at hatom

/-! ## What is written for lists -/

/-- Single spaces between the elements are enough of a gap, whatever the elements are. The gap
before the first element is left open: it is empty after the parenthesis, and a space in the
induction. -/
theorem elements_spaced {terms : List Term} {form : Term → List Char}
    (h : ∀ t ∈ terms, Written width t (form t)) {gap : List Char}
    (hgap : ∀ c ∈ gap, isBlank c = true) :
    Elements width terms (gap ++ (Text.spaced (terms.map form) ++ [')'])) := by
  induction terms generalizing gap with
  | nil => exact .nil hgap
  | cons t terms ih =>
    have hfirst := h t List.mem_cons_self
    have hterms : ∀ t ∈ terms, Written width t (form t) :=
      fun t ht => h t (List.mem_cons_of_mem _ ht)
    cases terms with
    | nil =>
      have hclose : Elements width [] [')'] := @Elements.nil width [] nofun
      rw [← List.append_assoc]
      exact .cons hgap hfirst (endsAt_cons (by decide) []) hclose
    | cons next more =>
      have hspace : ∀ c ∈ [' '], isBlank c = true := List.all_eq_true.mp rfl
      have hsplit : gap ++ (Text.spaced ((t :: next :: more).map form) ++ [')'])
          = gap ++ form t ++ ([' '] ++ (Text.spaced ((next :: more).map form) ++ [')'])) := by
        simp only [Text.spaced, List.map_cons, Text.joined_cons_cons, List.append_assoc]
      rw [hsplit]
      exact .cons hgap hfirst (endsAt_cons (by decide) _) (ih hterms hspace)

/-- What is written for a readable term is one of its written forms. -/
theorem Readable.written (h : Readable width t) :
    Written width t (t.bracketedChars '(' ')') := by
  induction h with
  | nil => exact .atom (.literal .unit)
  | boolean b =>
    cases b with
    | true => exact .atom (.literal .yes)
    | false => exact .atom (.literal .no)
  | number hfits => exact .atom (atom_intDigits hfits)
  | string s => exact .atom (atom_quoteChars s)
  | identifier hname => exact .atom (atom_name hname)
  | @list terms _ ih =>
    rw [Term.bracketedChars, Term.bracketedCharsAll_eq_map]
    exact .list (@elements_spaced width terms _ ih [] nofun)

end Written

/-! ## Reading back -/

section Parse

variable {width : Width} {t : Term}

theorem readable_of_parse {source : String} (h : parse (.ok width) source = .ok t) :
    Readable width t := by
  obtain ⟨rest, hread, -⟩ := parse_eq_ok_iff.mp h
  obtain ⟨_, _, _, _, hwritten, _⟩ := term_eq_ok_iff.mp hread
  exact hwritten.readable

theorem Readable.parse_write (h : Readable width t) : parse (.ok width) t.write = .ok t := by
  apply Written.parse_eq
  rw [Term.write, String.toList_ofList]
  exact h.written

theorem Readable.parse_between (h : Readable width t) {before after : String}
    (hbefore : ∀ c ∈ before.toList, isBlank c = true)
    (hafter : ∀ c ∈ after.toList, isBlank c = true) :
    parse (.ok width) (before ++ t.write ++ after) = .ok t := by
  have hsource : (before ++ t.write ++ after).toList
      = before.toList ++ t.bracketedChars '(' ')' ++ after.toList := by
    rw [String.toList_append, String.toList_append, Term.write, String.toList_ofList]
  refine parse_eq_ok_iff.mpr ⟨after.toList, term_eq_ok_iff.mpr ?_, hafter⟩
  exact ⟨_, _, hsource, hbefore, h.written, endsAt_of_blanks hafter⟩

/-- On atoms there are no brackets, and so writing is rendering. -/
theorem render_eq_write_of_atom (hatom : ∀ terms, t ≠ .list terms) :
    t.render = t.renderWith '(' ')' := by
  cases t with
  | list terms => exact absurd rfl (hatom terms)
  | _ => rfl

/-- A readable term whose numbers are not too long is read from what is written for it. -/
theorem Readable.exists_write (h : Readable width t) (hw : t.isWritable = true) :
    ∃ text, t.renderWith '(' ')' = .ok text ∧ parse (.ok width) text = .ok t :=
  ⟨t.write, Term.renderWith_of_isWritable h.isProper hw, h.parse_write⟩

theorem parse_quoteString (width : Width) (s : String) :
    parse (.ok width) (quoteString s) = .ok (.string s) := by
  apply Written.parse_eq
  rw [quoteString, String.toList_ofList]
  exact .atom (atom_quoteChars s)

end Parse

/-- Reading undoes writing. Rendering a term puts square brackets around the elements of lists, and
writing it puts parentheses there. A readable term can be rendered, and it can be written, if and
only if all numbers in it are short enough; otherwise the complaint is that a number is too long.
What is written is read as the term, with any blanks before and after it, and so is the text with
all the digits where writing fails. All that is read is readable, so that writing it, if that does
not fail, and reading it again gives the same term. In particular a readable atom is read from its
rendering, and a string from its literal. -/
theorem parse_write_of_readable (width : Width) :
    (∀ t : Term, t.render = t.renderWith '[' ']') ∧
    (∀ t, Readable width t →
      (t.isWritable = true →
        (∃ rendered, t.render = .ok rendered) ∧ t.renderWith '(' ')' = .ok t.write) ∧
      (t.isWritable = false →
        t.render = .error .overlong ∧ t.renderWith '(' ')' = .error .overlong)) ∧
    (∀ t (before after : String), Readable width t → (∀ c ∈ before.toList, isBlank c = true) →
      (∀ c ∈ after.toList, isBlank c = true) →
      parse (.ok width) (before ++ t.write ++ after) = .ok t) ∧
    (∀ source t, parse (.ok width) source = .ok t → Readable width t ∧
      (t.isWritable = true →
        ∃ text, t.renderWith '(' ')' = .ok text ∧ parse (.ok width) text = .ok t)) ∧
    (∀ t, Readable width t → (∀ terms, t ≠ .list terms) → t.isWritable = true →
      ∃ text, t.render = .ok text ∧ parse (.ok width) text = .ok t) ∧
    ∀ s, parse (.ok width) (quoteString s) = .ok (.string s) := by
  refine ⟨Term.render_eq_renderWith, fun t h => ⟨fun hw => ⟨?_, ?_⟩, fun hw => ⟨?_, ?_⟩⟩,
    fun t before after h hbefore hafter => h.parse_between hbefore hafter, ?_, ?_,
    parse_quoteString width⟩
  · exact ⟨t.spelled, Term.render_of_isWritable h.isProper hw⟩
  · exact Term.renderWith_of_isWritable h.isProper hw
  · exact Term.render_of_not_isWritable h.isProper hw
  · exact Term.renderWith_of_not_isWritable h.isProper hw
  · intro source t h
    have hreadable := readable_of_parse h
    exact ⟨hreadable, hreadable.exists_write⟩
  · intro t h hatom hw
    rw [render_eq_write_of_atom hatom]
    exact h.exists_write hw

/-- A list that holds the least number of the width, a name that begins with a minus sign, a string
with all four escapes, and an empty list. And the least number that is too long, which fits into
fifteen thousand bits: it is read, but not written. -/
theorem parse_write_mixed :
    let t : Term := .list [.number (-128), .identifier "-x1", .string "\\\"\n\t", .list []]
    let long : Term := .number (Nat.pow 10 Text.maxDigits : Nat)
    Readable ⟨8, by decide⟩ t ∧ parse (.ok ⟨8, by decide⟩) ("\t" ++ t.write ++ " \n") = .ok t ∧
      Readable ⟨15000, by decide⟩ long ∧ long.render = .error .overlong ∧
      long.renderWith '(' ')' = .error .overlong ∧
      parse (.ok ⟨15000, by decide⟩) ("" ++ long.write ++ "") = .ok long := by
  intro t long
  have hname : IsName "-x1" :=
    ⟨.intro rfl (List.all_eq_true.mp rfl) (by decide), by decide⟩
  have hreadable : Readable ⟨8, by decide⟩ t := by
    refine .list fun element helement => ?_
    simp only [List.mem_cons, List.not_mem_nil, or_false] at helement
    rcases helement with rfl | rfl | rfl | rfl
    · exact .number (by decide)
    · exact .identifier hname
    · exact .string _
    · exact .list nofun
  have hlong : Readable ⟨15000, by decide⟩ long := .number (by decide +kernel)
  obtain ⟨hrender, hwrite⟩ :=
    ((parse_write_of_readable _).2.1 long hlong).2 Text.isWritable_pow_maxDigits
  exact ⟨hreadable, (parse_write_of_readable _).2.2.1 t _ _ hreadable (List.all_eq_true.mp rfl)
    (List.all_eq_true.mp rfl), hlong, hrender, hwrite,
    (parse_write_of_readable _).2.2.1 long "" "" hlong nofun nofun⟩

end Grammar

end ScopeLisp
