import ScopeLisp.Proofs.Combinators

/-!
# Choices within choices

A choice that is one of the parsers of another choice may be replaced by its own parsers. For
values this is plain, as both try the same parsers in the same order. For failures it is not: the
inner choice reports one failure in place of all of its own, and this one competes with those of
the outer choice. What the outer choice reports depends on the failures before it only through
the best of them (`best?`), and to take the best is associative, the first one winning among
failures that are level. Where the inner choice has none worth reporting, what it reports instead
got no further than the beginning, so it is not worth reporting one level up either.

* `best?_append`: the best of several failures is the better one of the best of two parts.
* `best?_diagnose`: the failure that a choice reports stands for all of its failures.
* `tryEach_append`: parsers tried in a row may be tried in two parts, the first as a choice.
* `alternative_flattens`: choices within choices, and the reader of expressions as one choice.
-/

namespace ScopeLisp.Reader

variable {α : Type}

/-! ## The best of several failures -/

theorem Failure.further_eq_second {first second : Failure} (h : second.left < first.left) :
    first.further second = second := if_pos h

theorem Failure.further_eq_first {first second : Failure} (h : ¬ second.left < first.left) :
    first.further second = first := if_neg h

instance : Std.Associative Failure.further where
  assoc a b c := by
    by_cases hab : b.left < a.left
    · rw [Failure.further_eq_second hab]
      by_cases hbc : c.left < b.left
      · rw [Failure.further_eq_second hbc, Failure.further_eq_second (Nat.lt_trans hbc hab)]
      · rw [Failure.further_eq_first hbc, Failure.further_eq_second hab]
    · rw [Failure.further_eq_first hab]
      by_cases hbc : c.left < b.left
      · rw [Failure.further_eq_second hbc]
      · have hac : ¬ c.left < a.left := by omega
        rw [Failure.further_eq_first hbc, Failure.further_eq_first hab,
          Failure.further_eq_first hac]

theorem furthest?_append (first second : List Failure) :
    furthest? (first ++ second)
      = Option.merge Failure.further (furthest? first) (furthest? second) := by
  cases first with
  | nil => cases second <;> rfl
  | cons a as =>
    cases second with
    | nil => rw [List.append_nil]; rfl
    | cons b bs =>
      rw [List.cons_append]
      simp only [furthest?, List.foldl_append, List.foldl_cons, List.foldl_assoc, Option.merge]

/-- The failure that is worth reporting, if one of them got past the first character that is not
blank. -/
def best? (source : List Char) (failures : List Failure) : Option Failure :=
  furthest? (failures.filter (·.isPast (skipBlanks source).length))

theorem diagnose_eq (source : List Char) (failures : List Failure) :
    diagnose source failures
      = (best? source failures).getD { cause := .noAlternative, rest := some source } := by
  rw [diagnose, best?]
  cases furthest? (failures.filter (·.isPast (skipBlanks source).length)) <;> rfl

theorem best?_append (source : List Char) (first second : List Failure) :
    best? source (first ++ second)
      = Option.merge Failure.further (best? source first) (best? source second) := by
  rw [best?, List.filter_append, furthest?_append]
  rfl

theorem best?_diagnose (source : List Char) (failures : List Failure) :
    best? source [diagnose source failures] = best? source failures := by
  rw [diagnose_eq]
  cases hbest : best? source failures with
  | none =>
    -- the input as a whole is at least as long as what is left of it after its blanks
    have hpast : Failure.isPast (skipBlanks source).length
        { cause := .noAlternative, rest := some source } = false :=
      decide_eq_false (Nat.not_lt.mpr (length_skipBlanks_le source))
    rw [best?, Option.getD_none, List.filter_cons_of_neg (by rw [hpast]; exact Bool.false_ne_true)]
    rfl
  | some failure =>
    have hpast := (List.mem_filter.mp (furthest?_mem hbest)).2
    rw [best?, Option.getD_some, List.filter_cons_of_pos hpast]
    rfl

/-! ## Trying in two parts -/

/-- Earlier failures matter to the failure that is reported only through the best of them. -/
theorem tryEach_congr {source : List Char} {failures others : List Failure}
    (h : best? source failures = best? source others) (parsers : List (Parser α)) :
    tryEach source failures parsers = tryEach source others parsers := by
  induction parsers generalizing failures others with
  | nil => rw [tryEach, tryEach, diagnose_eq, diagnose_eq, h]
  | cons p ps ih =>
    rw [tryEach, tryEach]
    split
    · rfl
    · rfl
    · rename_i failure _
      have hmore : best? source (failures ++ [failure]) = best? source (others ++ [failure]) := by
        rw [best?_append, best?_append, h]
      rw [ih hmore]

/-- What a choice gives if one of its parsers gives `outcome`, with `failures` before it and
`parsers` after it. -/
def resume (source : List Char) (failures : List Failure) (parsers : List (Parser α)) :
    Outcome α → Outcome α
  | .ok parsed => .ok parsed
  | .error (.setting error) => .error (.setting error)
  | .error (.failure failure) =>
    if failure.fatal then .error (.failure failure)
    else tryEach source (failures ++ [failure]) parsers

theorem tryEach_cons (source : List Char) (failures : List Failure) (p : Parser α)
    (ps : List (Parser α)) :
    tryEach source failures (p :: ps) = resume source failures ps (p source) := by
  rw [tryEach]
  split <;> rename_i houtcome <;> rw [houtcome] <;> rfl

/-- Parsers tried in a row, `inner` being the failures of those tried so far, may as well be tried
apart from the failures before them. What they come to then goes on in the row. -/
theorem tryEach_append (source : List Char) (before inner : List Failure)
    (hinner : ∀ failure ∈ inner, failure.fatal = false) (parsers later : List (Parser α)) :
    tryEach source (before ++ inner) (parsers ++ later)
      = resume source before later (tryEach source inner parsers) := by
  induction parsers generalizing inner with
  | nil =>
    have hsame : best? source (before ++ inner)
        = best? source (before ++ [diagnose source inner]) := by
      rw [best?_append, best?_append, best?_diagnose]
    rw [List.nil_append, tryEach, resume, diagnose_fatal source hinner, tryEach_congr hsame]
    rfl
  | cons p ps ih =>
    rw [List.cons_append, tryEach_cons, tryEach_cons]
    cases houtcome : p source with
    | ok parsed => rfl
    | error e =>
      cases e with
      | setting error => rfl
      | failure failure =>
        cases hfatal : failure.fatal with
        | true => simp only [resume, hfatal, if_true]
        | false =>
          have hmore : ∀ f ∈ inner ++ [failure], f.fatal = false :=
            List.forall_mem_append.mpr ⟨hinner, List.forall_mem_singleton.mpr hfatal⟩
          simp only [resume, hfatal, Bool.false_eq_true, if_false]
          rw [List.append_assoc]
          exact ih _ hmore

/-- A choice is no different for parsers in front of it. -/
theorem tryEach_append_congr {source : List Char} {parsers others : List (Parser α)}
    (h : ∀ failures, tryEach source failures parsers = tryEach source failures others)
    (earlier : List (Parser α)) (failures : List Failure) :
    tryEach source failures (earlier ++ parsers) = tryEach source failures (earlier ++ others) := by
  induction earlier generalizing failures with
  | nil => exact h failures
  | cons p ps ih =>
    rw [List.cons_append, List.cons_append, tryEach, tryEach]
    split
    · rfl
    · rfl
    · rw [ih]

theorem alternative_append_alternative (ps qs rs : List (Parser α)) (source : List Char) :
    alternative (ps ++ alternative qs :: rs) source = alternative (ps ++ (qs ++ rs)) source := by
  refine tryEach_append_congr (fun failures => ?_) ps []
  have happend := tryEach_append source failures [] (List.forall_mem_nil _) qs rs
  rw [List.append_nil] at happend
  rw [tryEach_cons, happend]
  rfl

/-- A choice among parsers of any kind, one of which is itself a choice, gives at every input what
the choice without the inner grouping gives: the same value with the same input after it, or the
same failure with the same cause, message, rest and fatality. Any of the lists may be empty. So the
reader of expressions, a choice between an atom, which is a choice of four, and a list, is one
choice of five. -/
theorem alternative_flattens :
    (∀ (α : Type) (ps qs rs : List (Parser α)) (source : List Char),
      alternative (ps ++ [alternative qs] ++ rs) source
        = alternative (ps ++ qs ++ rs) source) ∧
    ∀ (width : WidthSetting) (source : List Char),
      term width source
        = alternative [number width, string, literal, identifier, list width] source := by
  refine ⟨fun α ps qs rs source => ?_, fun width source => ?_⟩
  · rw [List.append_assoc, List.append_assoc]
    exact alternative_append_alternative ps qs rs source
  · rw [term_eq, atom]
    exact alternative_append_alternative [] _ [list width] source

end ScopeLisp.Reader
