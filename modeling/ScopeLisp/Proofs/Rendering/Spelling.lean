import ScopeLisp.Term.Printer

/-!
# Written forms, spelled out

If there were no limit to the digits of a number, every term would have a plain form. This form is
spelled out here (`spelledChars`). The plain form of a term and its rendering are this one text, each
as long as it exists: the plain form exists if all numbers in the term are short enough to be
written, and the rendering if there is no foreign value in the term besides. Two functions compute
them, each by a recursion of its own, and so there is an induction over terms for each of the two.

* `textChars_eq`: the plain form of a term, or the complaint about a number in it.
* `renderChars_eq`: the rendering of a term without foreign values, or the same complaint.
* `render_eq_text`: for such a term the two agree.
* `render_eq_ok_iff`: which terms are rendered, and by what.
-/

namespace ScopeLisp.Term

/-! ## Which terms can be written -/

mutual

/-- Whether a term holds no foreign value. -/
def isProper : Term → Bool
  | .list terms => isProperAll terms
  | .foreign _ => false
  | _ => true

/-- Whether none of several terms holds a foreign value. -/
def isProperAll : List Term → Bool
  | [] => true
  | t :: ts => isProper t && isProperAll ts

end

mutual

/-- Whether all numbers in a term are short enough to be written. -/
def isWritable : Term → Bool
  | .number n => Text.isWritable n
  | .list terms => isWritableAll terms
  | _ => true

/-- Whether all numbers in several terms are short enough to be written. -/
def isWritableAll : List Term → Bool
  | [] => true
  | t :: ts => isWritable t && isWritableAll ts

end

theorem isProperAll_iff {terms : List Term} :
    isProperAll terms = true ↔ ∀ t ∈ terms, t.isProper = true := by
  induction terms with
  | nil => simp [isProperAll]
  | cons t terms ih => simp [isProperAll, ih]

theorem isWritableAll_iff {terms : List Term} :
    isWritableAll terms = true ↔ ∀ t ∈ terms, t.isWritable = true := by
  induction terms with
  | nil => simp [isWritableAll]
  | cons t terms ih => simp [isWritableAll, ih]

/-! ## The plain form, spelled out -/

mutual

/-- The plain form of a term with all digits of its numbers, however many they are. -/
def spelledChars : Term → List Char
  | .nil => ['N', 'I', 'L']
  | .boolean b => ['#', if b then 't' else 'f']
  | .number n => Text.intDigits n
  | .string s => quoteChars s.toList
  | .identifier name => name.toList
  | .list terms => '[' :: Text.spaced (spelledCharsAll terms) ++ [']']
  | .foreign value => value.text.toList

/-- The spelled-out forms of several terms. -/
def spelledCharsAll : List Term → List (List Char)
  | [] => []
  | t :: ts => spelledChars t :: spelledCharsAll ts

end

/-- The plain form of a term with all digits of its numbers, as a string. -/
def spelled (t : Term) : String := String.ofList t.spelledChars

theorem spelledCharsAll_eq_map (ts : List Term) : spelledCharsAll ts = ts.map spelledChars := by
  induction ts with
  | nil => rfl
  | cons t ts ih => rw [spelledCharsAll, ih, List.map_cons]

theorem spelledChars_list (terms : List Term) :
    (Term.list terms).spelledChars
      = '[' :: Text.spaced (terms.map spelledChars) ++ [']'] := by
  rw [spelledChars, spelledCharsAll_eq_map]

/-! ## Written or too long -/

/-- A form that exists as long as some numbers are short enough. -/
def unlessOverlong {α : Type} (writable : Bool) (form : α) : Except Misuse α :=
  if writable then .ok form else .error .overlong

section

variable {α β : Type} {first second : Bool}

theorem unlessOverlong_map (form : α) (f : α → β) :
    (unlessOverlong first form).map f = unlessOverlong first (f form) := by
  cases first <;> rfl

/-- Two forms that are put together exist as long as both of them do. -/
theorem unlessOverlong_bind (form : α) (next : α → Except Misuse β) (whole : β)
    (h : next form = unlessOverlong second whole) :
    (unlessOverlong first form >>= next) = unlessOverlong (first && second) whole := by
  cases first with
  | true => exact h
  | false => rfl

theorem unlessOverlong_eq_ok_iff {form given : α} :
    unlessOverlong first form = .ok given ↔ first = true ∧ form = given := by
  cases first <;> simp [unlessOverlong]

end

theorem numeral_eq (n : Int) :
    numeral n = unlessOverlong (Text.isWritable n) (Text.intDigits n) := by
  rw [numeral, Text.intDigits?]
  cases Text.isWritable n <;> rfl

mutual

theorem textChars_eq : ∀ t : Term, t.textChars = unlessOverlong t.isWritable t.spelledChars
  | .list ts => by
    rw [textChars, textCharsAll_eq ts]
    exact unlessOverlong_map ..
  | .number n => numeral_eq n
  | .nil | .boolean _ | .string _ | .identifier _ | .foreign _ => rfl

theorem textCharsAll_eq : ∀ ts : List Term,
    textCharsAll ts = unlessOverlong (isWritableAll ts) (spelledCharsAll ts)
  | [] => rfl
  | t :: ts => by
    rw [textCharsAll, textChars_eq t, textCharsAll_eq ts, isWritableAll]
    exact unlessOverlong_bind _ _ _ (unlessOverlong_map ..)

end

mutual

theorem renderChars_eq : ∀ t : Term, t.isProper = true →
    t.renderChars = unlessOverlong t.isWritable t.spelledChars
  | .list ts, h => by
    rw [renderChars, renderCharsAll_eq ts h]
    exact unlessOverlong_map ..
  | .number n, _ => numeral_eq n
  | .boolean true, _ | .boolean false, _ => rfl
  | .nil, _ | .string _, _ | .identifier _, _ => rfl
  | .foreign _, h => by cases h

theorem renderCharsAll_eq : ∀ ts : List Term, isProperAll ts = true →
    renderCharsAll ts = unlessOverlong (isWritableAll ts) (spelledCharsAll ts)
  | [], _ => rfl
  | t :: ts, h => by
    rw [isProperAll, Bool.and_eq_true] at h
    rw [renderCharsAll, renderChars_eq t h.1, renderCharsAll_eq ts h.2, isWritableAll]
    exact unlessOverlong_bind _ _ _ (unlessOverlong_map ..)

end

theorem text_eq (t : Term) : t.text = unlessOverlong t.isWritable t.spelled := by
  rw [text, textChars_eq, unlessOverlong_map, spelled]

theorem render_eq {t : Term} (h : t.isProper = true) :
    t.render = unlessOverlong t.isWritable t.spelled := by
  rw [render, renderChars_eq t h, unlessOverlong_map, spelled]

theorem render_eq_text {t : Term} (h : t.isProper = true) : t.render = t.text := by
  rw [render_eq h, text_eq]

theorem render_of_isWritable {t : Term} (h : t.isProper = true) (hw : t.isWritable = true) :
    t.render = .ok t.spelled := by
  rw [render_eq h, hw]
  rfl

theorem render_of_not_isWritable {t : Term} (h : t.isProper = true)
    (hw : t.isWritable = false) : t.render = .error .overlong := by
  rw [render_eq h, hw]
  rfl

/-! ## Which terms are rendered -/

mutual

theorem isProper_of_renderChars : ∀ (t : Term) (s : List Char), t.renderChars = .ok s →
    t.isProper = true
  | .list ts, s, h => by
    rw [renderChars] at h
    cases hpieces : renderCharsAll ts with
    | ok pieces => exact isProperAll_of_renderCharsAll ts pieces hpieces
    | error e =>
      rw [hpieces] at h
      cases h
  | .boolean _, _, _ | .nil, _, _ | .number _, _, _ | .string _, _, _ | .identifier _, _, _ => rfl
  | .foreign _, _, h => by cases h

theorem isProperAll_of_renderCharsAll : ∀ (ts : List Term) (ss : List (List Char)),
    renderCharsAll ts = .ok ss → isProperAll ts = true
  | [], _, _ => rfl
  | t :: ts, ss, h => by
    rw [renderCharsAll] at h
    cases hpiece : renderChars t with
    | error e =>
      rw [hpiece] at h
      cases h
    | ok piece =>
      cases hpieces : renderCharsAll ts with
      | error e =>
        rw [hpiece, hpieces] at h
        cases h
      | ok pieces =>
        rw [isProperAll, isProper_of_renderChars t piece hpiece,
          isProperAll_of_renderCharsAll ts pieces hpieces]
        rfl

end

theorem render_eq_ok_iff {t : Term} {s : String} :
    t.render = .ok s ↔ t.isProper = true ∧ t.isWritable = true ∧ t.spelled = s := by
  constructor
  · intro h
    have hproper : t.isProper = true := by
      cases hchars : t.renderChars with
      | ok form => exact isProper_of_renderChars t form hchars
      | error e =>
        rw [render, hchars] at h
        cases h
    rw [render_eq hproper, unlessOverlong_eq_ok_iff] at h
    exact ⟨hproper, h⟩
  · rintro ⟨hproper, h⟩
    rw [render_eq hproper, unlessOverlong_eq_ok_iff]
    exact h

end ScopeLisp.Term
