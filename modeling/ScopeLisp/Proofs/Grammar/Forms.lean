import Mathlib.Data.Nat.Digits.Defs
import ScopeLisp.Reader.Expression

/-!
# Written forms

The grammar of the reader, as a relation between terms and the texts that are written for them.
Two tokens may stand side by side without a blank between them if the first one cannot be taken
to go on with the second: `12abc` is a number and a name, `abc12` is one name.

* `Atom`, `Written`, `Elements`: the written forms of atoms, of terms and of the elements of a list.
* `EndsAt`: a written form of a term may be followed by a text.
* `Written.exists_cons`: no written form is empty or begins with a blank.
-/

namespace ScopeLisp.Grammar

open Reader

/-! ## Atoms -/

/-- Decimal digits, at least one of them, that are worth `value`. -/
structure Numeral (value : Nat) (form : List Char) : Prop where
  ne_nil : form ≠ []
  isDigit : ∀ c ∈ form, isDigit c = true
  ofDigits_eq : Nat.ofDigits 10 (form.reverse.map digitWorth) = value

/-- What is written between the quotes of a string, and the characters that are meant. -/
inductive Body : List Char → List Char → Prop
  | nil : Body [] []
  | plain {c : Char} {meant form : List Char} :
    c ≠ '"' → c ≠ '\\' → Body meant form → Body (c :: meant) (c :: form)
  | escape {c d : Char} {meant form : List Char} :
    (c, d) ∈ [('n', '\n'), ('t', '\t'), ('\\', '\\'), ('"', '"')] → Body meant form →
    Body (d :: meant) ('\\' :: c :: form)

/-- The written forms of the booleans and of the unit value. -/
inductive Literal : Term → List Char → Prop
  | yes : Literal (.boolean true) ['#', 't']
  | no : Literal (.boolean false) ['#', 'f']
  | unit : Literal .nil ['N', 'I', 'L']

/-- A text that has the shape of a name. The unit value has it too. -/
inductive Word : List Char → Prop
  | intro {c : Char} {rest : List Char} :
    isNameStart c = true → (∀ d ∈ rest, isNameChar d = true) →
    ¬ (c = '-' ∧ startsWithDigit rest = true) → Word (c :: rest)

/-- The written forms of the terms that are no lists, for integers of the width. -/
inductive Atom (width : Width) : Term → List Char → Prop
  | natural {n : Nat} {form : List Char} :
    Numeral n form → width.holds n = true → Atom width (.number n) form
  | negative {n : Nat} {form : List Char} :
    Numeral n form → width.holds (-n) = true → Atom width (.number (-n)) ('-' :: form)
  | string {meant form : List Char} :
    Body meant form → Atom width (.string (String.ofList meant)) ('"' :: (form ++ ['"']))
  | literal {t : Term} {form : List Char} : Literal t form → Atom width t form
  | name {form : List Char} :
    Word form → form ≠ ['N', 'I', 'L'] → Atom width (.identifier (String.ofList form)) form

/-! ## Terms -/

/-- A written form of the term ends where the text `following` begins: no digit follows a number,
and no character of a name follows a name, a boolean or the unit value. -/
def EndsAt : Term → (following : List Char) → Prop
  | .number _, following => startsWithDigit following = false
  | .identifier _, following | .boolean _, following | .nil, following =>
    continuesName following = false
  | .string _, _ | .list _, _ | .foreign _, _ => True

mutual

/-- The written forms of a term, for integers of the width. -/
inductive Written (width : Width) : Term → List Char → Prop
  | atom {t : Term} {form : List Char} : Atom width t form → Written width t form
  | list {terms : List Term} {form : List Char} :
    Elements width terms form → Written width (.list terms) ('(' :: form)

/-- What is written after the opening parenthesis of a list, up to the closing one: the elements
in order, with blanks before each of them and before the parenthesis. -/
inductive Elements (width : Width) : List Term → List Char → Prop
  | nil {gap : List Char} :
    (∀ c ∈ gap, isBlank c = true) → Elements width [] (gap ++ [')'])
  | cons {t : Term} {terms : List Term} {gap form following : List Char} :
    (∀ c ∈ gap, isBlank c = true) → Written width t form → EndsAt t following →
    Elements width terms following → Elements width (t :: terms) (gap ++ form ++ following)

end

/-! ## Where forms begin and end -/

section Blank

variable {c : Char}

theorem isNameChar_of_isDigit (h : isDigit c = true) : isNameChar c = true := by
  rw [isNameChar, h, Bool.or_true]

theorem isNameChar_of_isNameStart (h : isNameStart c = true) : isNameChar c = true := by
  rw [isNameChar, h, Bool.true_or]

theorem isNameChar_of_isBlank (h : isBlank c = true) : isNameChar c = false := by
  rw [isBlank, List.contains_iff_mem, blanks] at h
  simp only [List.mem_cons, List.not_mem_nil, or_false] at h
  rcases h with rfl | rfl | rfl <;> decide

theorem isBlank_of_isNameChar (h : isNameChar c = true) : isBlank c = false := by
  cases hblank : isBlank c with
  | false => rfl
  | true =>
    rw [isNameChar_of_isBlank hblank] at h
    cases h

end Blank

section Forms

variable {width : Width} {t : Term} {terms : List Term} {form : List Char}

theorem Numeral.exists_cons {value : Nat} (h : Numeral value form) :
    ∃ c rest, form = c :: rest ∧ Reader.isDigit c = true := by
  obtain ⟨c, rest, rfl⟩ := List.exists_cons_of_ne_nil h.ne_nil
  exact ⟨c, rest, rfl, h.isDigit c List.mem_cons_self⟩

theorem Atom.exists_cons (h : Atom width t form) :
    ∃ c rest, form = c :: rest ∧ isBlank c = false := by
  cases h with
  | natural hnumeral _ =>
    obtain ⟨c, rest, rfl, hc⟩ := hnumeral.exists_cons
    exact ⟨c, rest, rfl, isBlank_of_isNameChar (isNameChar_of_isDigit hc)⟩
  | name hword _ =>
    obtain ⟨hstart, -, -⟩ := hword
    exact ⟨_, _, rfl, isBlank_of_isNameChar (isNameChar_of_isNameStart hstart)⟩
  | literal hliteral => cases hliteral <;> exact ⟨_, _, rfl, by decide⟩
  | negative _ _ | string _ => exact ⟨_, _, rfl, by decide⟩

theorem Written.exists_cons (h : Written width t form) :
    ∃ c rest, form = c :: rest ∧ isBlank c = false := by
  cases h with
  | atom hatom => exact hatom.exists_cons
  | list _ => exact ⟨_, _, rfl, by decide⟩

theorem Elements.ne_nil (h : Elements width terms form) : form ≠ [] := by
  cases h with
  | nil _ => exact List.append_ne_nil_of_right_ne_nil _ (List.cons_ne_nil _ _)
  | cons _ hwritten _ _ =>
    obtain ⟨c, rest, rfl, -⟩ := hwritten.exists_cons
    simp

/-- A name that does not begin with a minus sign is written as it is. -/
theorem written_name {c : Char} {rest : List Char} (hstart : isNameStart c = true)
    (hminus : c ≠ '-') (hrest : rest.all Reader.isNameChar = true)
    (hunit : c :: rest ≠ ['N', 'I', 'L']) :
    Written width (.identifier (String.ofList (c :: rest))) (c :: rest) := by
  have hword : Word (c :: rest) :=
    .intro hstart (List.all_eq_true.mp hrest) fun hsign => hminus hsign.1
  exact .atom (.name hword hunit)

/-- Only the first character that follows a form matters. -/
theorem endsAt_append {following : List Char} (h : following ≠ []) (rest : List Char) :
    EndsAt t (following ++ rest) ↔ EndsAt t following := by
  obtain ⟨c, more, rfl⟩ := List.exists_cons_of_ne_nil h
  cases t <;> exact Iff.rfl

/-- Every form ends before a character that cannot stand in a name. -/
theorem endsAt_cons {c : Char} (h : isNameChar c = false) (rest : List Char) :
    EndsAt t (c :: rest) := by
  have hdigit : isDigit c = false := by
    rw [isNameChar, Bool.or_eq_false_iff] at h
    exact h.2
  cases t <;> first | exact hdigit | exact h | exact trivial

/-- Every form ends where a blank or nothing follows. -/
theorem endsAt_of_blanks {gap : List Char} (h : ∀ c ∈ gap, isBlank c = true) : EndsAt t gap := by
  cases gap with
  | nil => cases t <;> first | rfl | exact trivial
  | cons c rest => exact endsAt_cons (isNameChar_of_isBlank (h c List.mem_cons_self)) rest

end Forms

end ScopeLisp.Grammar
