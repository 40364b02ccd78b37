import ScopeLisp.Reader.Atom
import ScopeLisp.Reader.Repetition

/-!
# Expressions

An expression is an atom or a list of expressions in parentheses. Between elements blanks are
optional wherever the elements can be told apart without them. Lists may be nested as deep as the
input is long: the recursion is on the length of the input, with no bound on its depth.

* `term_eq`: an expression is an atom or a list of expressions.
* `shortens_term`: reading an expression uses up at least one character.
-/

namespace ScopeLisp.Reader

/-! ## Lists -/

/-- Reads a list whose elements are read by `element`. -/
def listOf (element : Parser Term) : Parser Term := fun untrimmed =>
  match skipBlanks untrimmed with
  | '(' :: inside =>
    match many element inside with
    | .error e => .error e
    | .ok ⟨elements, after⟩ =>
      match skipBlanks after with
      | ')' :: rest => .ok ⟨.list elements, rest⟩
      | rest => failAt .unclosedList rest
  | source => failAt .notAList source

/-! ## Expressions -/

/-- Reads an expression. The elements of a list stand in a shorter input than the list, so the
guard always lets them pass (`term_eq`). -/
def term (width : WidthSetting) (source : List Char) : Outcome Term :=
  let element : Parser Term := fun inner =>
    if inner.length < source.length then term width inner else failAt .noAlternative inner
  alternative [atom width, listOf element] source
termination_by source.length

/-- Reads a list of expressions. -/
def list (width : WidthSetting) : Parser Term := listOf (term width)

theorem listOf_congr {p q : Parser Term} (source : List Char)
    (h : ∀ s : List Char, s.length < source.length → p s = q s) :
    listOf p source = listOf q source := by
  unfold listOf
  split
  · rename_i inside hs
    have h1 := length_skipBlanks_le source
    rw [hs, List.length_cons] at h1
    have hm : many p inside = many q inside :=
      star_congr _ _ _ fun s hs => h s (by omega)
    rw [hm]
  · rfl

theorem term_eq (width : WidthSetting) (source : List Char) :
    term width source = alternative [atom width, list width] source := by
  rw [term]
  have h : listOf (fun inner =>
        if inner.length < source.length then term width inner else failAt .noAlternative inner)
      source = list width source :=
    listOf_congr source fun s hs => by simp [hs]
  simp only [alternative, tryEach, h]

theorem shortens_listOf {element : Parser Term} (h : ∀ s r, element s = .ok r →
    r.rest.length ≤ s.length) : Shortens (listOf element) := by
  intro source parsed hs
  simp only [listOf] at hs
  split at hs
  · rename_i inside hin
    have h1 := length_skipBlanks_le source
    rw [hin, List.length_cons] at h1
    split at hs
    · cases hs
    · rename_i elements after hm
      have h2 := length_star_rest_le h hm
      split at hs
      · rename_i rest hr
        have h3 := length_skipBlanks_le after
        rw [hr, List.length_cons] at h3
        cases hs
        dsimp only at h2 ⊢
        omega
      · cases hs
  · cases hs

theorem shortens_term (width : WidthSetting) : Shortens (term width) := by
  intro source
  induction hn : source.length using Nat.strongRecOn generalizing source with
  | _ n ih =>
    intro parsed hs
    rw [term] at hs
    obtain ⟨p, hp, hps⟩ := exists_of_alternative_ok hs
    simp only [List.mem_cons, List.not_mem_nil, or_false] at hp
    rcases hp with rfl | rfl
    · exact hn ▸ shortens_atom width _ _ hps
    · refine hn ▸ shortens_listOf (fun s r hr => ?_) _ _ hps
      split at hr
      · rename_i hlt
        exact Nat.le_of_lt (ih s.length (hn ▸ hlt) s rfl r hr)
      · cases hr

/-- Reads exactly one expression; only blanks may follow it. -/
def parseChars (width : WidthSetting) (source : List Char) : Except ReadError Term :=
  match term width source with
  | .error e => .error e
  | .ok ⟨term, rest⟩ =>
    if rest.all isBlank then .ok term
    else .error (.failure { cause := .incomplete, rest := some rest })

/-- Reads exactly one expression from a string. -/
def parse (width : WidthSetting) (source : String) : Except ReadError Term :=
  parseChars width source.toList

end ScopeLisp.Reader
