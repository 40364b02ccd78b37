import Mathlib.Data.List.Basic
import Mathlib.Data.PFun
import ScopeLisp.Proofs.Combinators

/-!
# Repetition as a fold over a trail

Nothing about a parser says that repeating it comes to an end: a match may leave over as much as
the parser was given, or more. The repetition is a loop all the same, without a bound of its own
(`rounds`). It ends because a match that does not shorten the input is the last one.

The matches of a repetition make a trail: each one is read from what the match before it left
over, and only the last one may fail to shorten its input. From any input there is one trail that
cannot go on, and every other trail is a beginning of it. What the repetition gives is the fold of
the values along this trail, unless the parser fails at its end in a way that is passed on.

* `Trail.length_le`: a trail is no longer than its input, but for one match.
* `exists_trail_stops`, `Trail.isPrefix_of_stops`, `Trail.eq_of_stops`: the trail that cannot go on.
* `star_mem_rounds`: the loop ends, and with what the repetition gives.
* `repeated_folds_longest_trail`: all of this for a repetition with or without an operation.
* `skipMany_blanks`: to skip blanks is to repeat the parser of one blank.
-/

namespace ScopeLisp.Reader

variable {α β : Type}

/-! ## Errors that end a repetition -/

/-- Whether an error is passed on where parsers are repeated or chosen from. -/
def ReadError.isFatal : ReadError → Bool
  | .failure f => f.fatal
  | .setting _ => true

theorem declines_iff {p : Parser α} {source : List Char} :
    Declines p source ↔ ∃ error, p source = .error error ∧ error.isFatal = false := by
  constructor
  · rintro ⟨failure, hfailure, hsoft⟩
    exact ⟨.failure failure, hfailure, hsoft⟩
  · rintro ⟨error, herror, hsoft⟩
    cases error with
    | failure failure => exact ⟨failure, herror, hsoft⟩
    | setting error => cases hsoft

theorem star_of_fatal {p : Parser α} {source : List Char} {error : ReadError}
    (h : p source = .error error) (hfatal : error.isFatal = true) (op : β → α → β) (initial : β) :
    star p op initial source = .error error := by
  rw [star_eq, h]
  cases error with
  | failure failure => exact if_pos hfatal
  | setting error => rfl

/-! ## The loop -/

/-- One round of a repetition: the parser is asked once. The repetition is over then, or it goes on
with what has been folded so far and what is left of the input. -/
def oneRound (p : Parser α) (op : β → α → β) : β × List Char → Outcome β ⊕ β × List Char
  | (folded, source) =>
    match p source with
    | .error error => .inl (if error.isFatal then .error error else .ok ⟨folded, source⟩)
    | .ok ⟨value, rest⟩ =>
      if rest.length < source.length then .inr (op folded value, rest)
      else .inl (.ok ⟨op folded value, rest⟩)

/-- One round after the other until the repetition is over. There is no outcome if it never is. -/
def rounds (p : Parser α) (op : β → α → β) : β × List Char →. Outcome β :=
  PFun.fix (PFun.lift (oneRound p op))

theorem star_mem_rounds (p : Parser α) (op : β → α → β) (initial : β) (source : List Char) :
    star p op initial source ∈ rounds p op (initial, source) := by
  cases hread : p source with
  | error error =>
    refine PFun.fix_stop (Part.mem_some_iff.mpr ?_)
    cases hfatal : error.isFatal with
    | true => simp only [star_of_fatal hread hfatal, oneRound, hread, hfatal, if_true]
    | false =>
      have hrun := Run.stop (declines_iff.mpr ⟨error, hread, hfatal⟩)
      simp only [hrun.star_eq, oneRound, hread, hfatal, Bool.false_eq_true, if_false,
        List.foldl_nil]
  | ok first =>
    by_cases hshort : first.rest.length < source.length
    · have hround : .inr (op initial first.value, first.rest)
          ∈ PFun.lift (oneRound p op) (initial, source) := by
        rw [PFun.coe_val, Part.mem_some_iff, oneRound, hread]
        exact (if_pos hshort).symm
      have hstar : star p op initial source = star p op (op initial first.value) first.rest := by
        rw [star_eq, hread]
        exact if_pos hshort
      rw [rounds, PFun.fix_fwd_eq hround, hstar]
      exact star_mem_rounds p op (op initial first.value) first.rest
    · refine PFun.fix_stop (Part.mem_some_iff.mpr ?_)
      rw [(Run.stuck hread hshort).star_eq, oneRound, hread]
      exact (if_neg hshort).symm
termination_by source.length

/-! ## Trails -/

/-- What is left of an input after some matches. -/
def leftAfter (source : List Char) : List (Parsed α) → List Char
  | [] => source
  | first :: later => leftAfter first.rest later

/-- Matches of `p` one after the other, each one read from what the match before it left over.
Every match but possibly the last one shortens its input. -/
inductive Trail (p : Parser α) : List Char → List (Parsed α) → Prop
  | nil {source : List Char} : Trail p source []
  /-- A match that does not shorten the input can only be the last one. -/
  | stuck {source : List Char} {last : Parsed α} :
    p source = .ok last → ¬ last.rest.length < source.length → Trail p source [last]
  | cons {source : List Char} {first : Parsed α} {later : List (Parsed α)} :
    p source = .ok first → first.rest.length < source.length → Trail p first.rest later →
    Trail p source (first :: later)

/-- The last match leaves over no less than it was read from. -/
def Stuck (source : List Char) (trail : List (Parsed α)) : Prop :=
  ∃ earlier last, trail = earlier ++ [last] ∧
    (leftAfter source earlier).length ≤ last.rest.length

/-- The matches do not go on: the last one did not shorten its input, or the parser fails at what
is left. -/
def Stops (p : Parser α) (source : List Char) (trail : List (Parsed α)) : Prop :=
  Stuck source trail ∨ ∃ error, p (leftAfter source trail) = .error error

theorem not_stuck_nil (source : List Char) : ¬ Stuck source ([] : List (Parsed α)) := by
  rintro ⟨earlier, last, hsplit, -⟩
  exact List.append_ne_nil_of_right_ne_nil earlier (List.cons_ne_nil last []) hsplit.symm

theorem stuck_singleton {source : List Char} {last : Parsed α}
    (h : ¬ last.rest.length < source.length) : Stuck source [last] :=
  ⟨[], last, rfl, Nat.not_lt.mp h⟩

/-- A match that shortens its input is not the one that the others are stuck at. -/
theorem stuck_cons_iff {source : List Char} {first : Parsed α} {later : List (Parsed α)}
    (h : first.rest.length < source.length) :
    Stuck source (first :: later) ↔ Stuck first.rest later := by
  constructor
  · rintro ⟨earlier, last, hsplit, hlong⟩
    cases earlier with
    | nil =>
      cases hsplit
      exact absurd h (Nat.not_lt.mpr hlong)
    | cons next earlier =>
      cases hsplit
      exact ⟨earlier, last, rfl, hlong⟩
  · rintro ⟨earlier, last, rfl, hlong⟩
    exact ⟨first :: earlier, last, rfl, hlong⟩

theorem stops_cons_iff {p : Parser α} {source : List Char} {first : Parsed α}
    {later : List (Parsed α)} (h : first.rest.length < source.length) :
    Stops p source (first :: later) ↔ Stops p first.rest later :=
  or_congr_left (stuck_cons_iff h)

/-- Where the parser reads something, it does not stop before it has. -/
theorem not_stops_nil {p : Parser α} {source : List Char} {parsed : Parsed α}
    (h : p source = .ok parsed) : ¬ Stops p source [] := by
  rintro (hstuck | ⟨error, herror⟩)
  · exact not_stuck_nil source hstuck
  · cases h.symm.trans herror

theorem exists_trail_stops (p : Parser α) (source : List Char) :
    ∃ trail, Trail p source trail ∧ Stops p source trail := by
  cases hread : p source with
  | error error => exact ⟨[], .nil, .inr ⟨error, hread⟩⟩
  | ok first =>
    by_cases hshort : first.rest.length < source.length
    · obtain ⟨later, htrail, hstops⟩ := exists_trail_stops p first.rest
      exact ⟨first :: later, .cons hread hshort htrail, (stops_cons_iff hshort).mpr hstops⟩
    · exact ⟨[first], .stuck hread hshort, .inl (stuck_singleton hshort)⟩
termination_by source.length

namespace Trail

variable {p : Parser α} {source : List Char} {trail other : List (Parsed α)}

theorem length_le (h : Trail p source trail) : trail.length ≤ source.length + 1 := by
  induction h with
  | nil => exact Nat.zero_le _
  | stuck => exact Nat.le_add_left _ _
  | cons _ hshort _ ih =>
    rw [List.length_cons]
    omega

/-- A trail that does not go on begins with what the parser gives for its input, and goes on from
there if this shortens the input. -/
theorem exists_later (h : Trail p source trail) (hstops : Stops p source trail)
    {first : Parsed α} (hread : p source = .ok first) :
    ∃ later, trail = first :: later ∧
      (first.rest.length < source.length → Trail p first.rest later) := by
  cases h with
  | nil => exact absurd hstops (not_stops_nil hread)
  | stuck hread' hlong =>
    cases hread.symm.trans hread'
    exact ⟨[], rfl, fun hshort => absurd hshort hlong⟩
  | cons hread' _ hlater =>
    cases hread.symm.trans hread'
    exact ⟨_, rfl, fun _ => hlater⟩

/-- Every trail is a beginning of one that does not go on. -/
theorem isPrefix_of_stops (hother : Trail p source other) (h : Trail p source trail)
    (hstops : Stops p source trail) : other <+: trail := by
  induction hother generalizing trail with
  | nil => exact List.nil_prefix
  | stuck hread _ =>
    obtain ⟨later, rfl, -⟩ := h.exists_later hstops hread
    exact ⟨later, rfl⟩
  | cons hread hshort _ ih =>
    obtain ⟨later, rfl, hlater⟩ := h.exists_later hstops hread
    have hrest := ih (hlater hshort) ((stops_cons_iff hshort).mp hstops)
    exact List.cons_prefix_cons.mpr ⟨rfl, hrest⟩

theorem eq_of_stops (hother : Trail p source other) (hstops' : Stops p source other)
    (h : Trail p source trail) (hstops : Stops p source trail) : other = trail :=
  (isPrefix_of_stops hother h hstops).eq_of_length_le
    (isPrefix_of_stops h hother hstops').length_le

/-- A repetition goes along the trail and ends well if the trail ends well. -/
theorem run (h : Trail p source trail)
    (hend : Stuck source trail ∨ Declines p (leftAfter source trail)) :
    Run p source (trail.map Parsed.value) (leftAfter source trail) := by
  induction h with
  | nil => exact .stop (hend.resolve_left (not_stuck_nil _))
  | stuck hread hlong => exact .stuck hread hlong
  | cons hread hshort _ ih =>
    have hlater := hend.imp_left (stuck_cons_iff hshort).mp
    exact .step hread hshort (ih hlater)

/-- An error at the end of the trail that is passed on is the error of the repetition. -/
theorem star_eq_error (h : Trail p source trail) (hfree : ¬ Stuck source trail)
    {error : ReadError} (herror : p (leftAfter source trail) = .error error)
    (hfatal : error.isFatal = true) (op : β → α → β) (initial : β) :
    star p op initial source = .error error := by
  induction h generalizing initial with
  | nil => exact star_of_fatal herror hfatal op initial
  | stuck _ hlong => exact absurd (stuck_singleton hlong) hfree
  | cons hread hshort _ ih =>
    rw [star_eq]
    simp only [hread, if_pos hshort]
    exact ih (fun hstuck => hfree ((stuck_cons_iff hshort).mpr hstuck)) herror _

end Trail

/-- Matches that do not go on end well or in an error that is passed on. -/
theorem Stops.ending {p : Parser α} {source : List Char} {trail : List (Parsed α)}
    (h : Stops p source trail) :
    (Stuck source trail ∨ Declines p (leftAfter source trail)) ∨
      ¬ Stuck source trail ∧
        ∃ error, p (leftAfter source trail) = .error error ∧ error.isFatal = true := by
  by_cases hstuck : Stuck source trail
  · exact .inl (.inl hstuck)
  · obtain ⟨error, herror⟩ := h.resolve_left hstuck
    cases hfatal : error.isFatal with
    | true => exact .inr ⟨hstuck, error, herror, hfatal⟩
    | false => exact .inl (.inr (declines_iff.mpr ⟨error, herror, hfatal⟩))

/-! ## The outcome of a repetition -/

/-- The values folded from the left onto `initial`, if there is an operation to do so with. -/
def foldValues (op : Option (β → α → β)) (initial : β) (values : List α) : β :=
  match op with
  | some op => values.foldl op initial
  | none => initial

theorem foldl_foldIn (op : Option (β → α → β)) (initial : β) (values : List α) :
    values.foldl (foldIn op) initial = foldValues op initial values := by
  cases op with
  | some op => rfl
  | none => exact List.foldl_fixed values

theorem Run.repeated_eq {p : Parser α} {source rest : List Char} {values : List α}
    (h : Run p source values rest) (op : Option (β → α → β)) (initial : β) :
    repeated p op initial source = .ok ⟨foldValues op initial values, rest⟩ := by
  rw [repeated, h.star_eq, foldl_foldIn]

/-- Where every match shortens its input, a repetition only ends because its parser declines. -/
theorem Run.declines {p : Parser α} {source rest : List Char} {values : List α}
    (h : Run p source values rest) (hp : Shortens p) : Declines p rest := by
  induction h with
  | stop hdeclines => exact hdeclines
  | stuck hread hlong => exact absurd (hp _ _ hread) hlong
  | step _ _ _ ih => exact ih

namespace Trail

variable {p : Parser α} {source : List Char} {trail : List (Parsed α)}
  {op : Option (β → α → β)} {initial : β}

theorem repeated_eq_ok_iff (h : Trail p source trail) (hstops : Stops p source trail)
    {parsed : Parsed β} :
    repeated p op initial source = .ok parsed ↔
      (Stuck source trail ∨ Declines p (leftAfter source trail)) ∧
        parsed = ⟨foldValues op initial (trail.map Parsed.value), leftAfter source trail⟩ := by
  constructor
  · intro hok
    rcases hstops.ending with hend | ⟨hfree, error, herror, hfatal⟩
    · have hfold := (h.run hend).repeated_eq op initial
      exact ⟨hend, Except.ok.inj (hok.symm.trans hfold)⟩
    · cases hok.symm.trans (h.star_eq_error hfree herror hfatal _ initial)
  · rintro ⟨hend, rfl⟩
    exact (h.run hend).repeated_eq op initial

theorem repeated_eq_error_iff (h : Trail p source trail) (hstops : Stops p source trail)
    {error : ReadError} :
    repeated p op initial source = .error error ↔
      ¬ Stuck source trail ∧ p (leftAfter source trail) = .error error ∧
        error.isFatal = true := by
  constructor
  · intro hfail
    rcases hstops.ending with hend | ⟨hfree, other, hother, hfatal⟩
    · cases hfail.symm.trans ((h.run hend).repeated_eq op initial)
    · cases hfail.symm.trans (h.star_eq_error hfree hother hfatal _ initial)
      exact ⟨hfree, hother, hfatal⟩
  · rintro ⟨hfree, herror, hfatal⟩
    exact h.star_eq_error hfree herror hfatal _ initial

end Trail

/-- Where every match shortens its input, to repeat the parser once more reads nothing. -/
theorem repeated_again {p : Parser α} (hp : Shortens p) {op : Option (β → α → β)} {initial : β}
    {source : List Char} {parsed : Parsed β} (h : repeated p op initial source = .ok parsed)
    {γ : Type} (again : Option (γ → α → γ)) (first : γ) :
    repeated p again first parsed.rest = .ok ⟨first, parsed.rest⟩ := by
  obtain ⟨values, hrun, -⟩ := exists_run_of_star h
  rw [(Run.stop (hrun.declines hp)).repeated_eq]
  cases again <;> rfl

/-- For any parser and any input there is exactly one trail that does not go on. It has at most one
match more than the input has characters, and every other trail is a beginning of it. Whatever the
operation, if there is one, the loop of the repetition ends. It ends well exactly if the last match
of the trail did not shorten its input or the parser declines what is left after it; the values are
then those of the whole trail in order. It ends in an error exactly if the parser gives this error
there, and the error is fatal or no failure of the input. If every match shortens its input, to
repeat the parser once more reads nothing. -/
theorem repeated_folds_longest_trail {α : Type} (p : Parser α) (source : List Char) :
    (∃! trail, Trail p source trail ∧ Stops p source trail) ∧
    ∀ trail, Trail p source trail → Stops p source trail →
      trail.length ≤ source.length + 1 ∧
      (∀ other, Trail p source other → other <+: trail) ∧
      ∀ (β : Type) (op : Option (β → α → β)) (initial : β),
        repeated p op initial source ∈ rounds p (foldIn op) (initial, source) ∧
        (∀ parsed, repeated p op initial source = .ok parsed ↔
          (Stuck source trail ∨ Declines p (leftAfter source trail)) ∧
            parsed = ⟨foldValues op initial (trail.map Parsed.value), leftAfter source trail⟩) ∧
        (∀ error, repeated p op initial source = .error error ↔
          ¬ Stuck source trail ∧ p (leftAfter source trail) = .error error ∧
            error.isFatal = true) ∧
        (Shortens p → ∀ parsed, repeated p op initial source = .ok parsed →
          ∀ (γ : Type) (again : Option (γ → α → γ)) (first : γ),
            repeated p again first parsed.rest = .ok ⟨first, parsed.rest⟩) := by
  refine ⟨?_, fun trail htrail hstops => ⟨htrail.length_le,
    fun other hother => hother.isPrefix_of_stops htrail hstops, fun β op initial => ?_⟩⟩
  · obtain ⟨trail, htrail, hstops⟩ := exists_trail_stops p source
    exact ⟨trail, ⟨htrail, hstops⟩, fun other h => h.1.eq_of_stops h.2 htrail hstops⟩
  · exact ⟨star_mem_rounds p _ initial source, fun _ => htrail.repeated_eq_ok_iff hstops,
      fun _ => htrail.repeated_eq_error_iff hstops, fun hp _ hok _ again first =>
        repeated_again hp hok again first⟩

/-- Numbers are read up to a name, across blanks and without them, and then no more of them. -/
theorem repeated_numbers_then_again :
    let numbers : Parser Term := number (.ok ⟨8, by decide⟩)
    let source := "1 -2\n03x".toList
    let trail : List (Parsed Term) :=
      [⟨.number 1, " -2\n03x".toList⟩, ⟨.number (-2), "\n03x".toList⟩, ⟨.number 3, ['x']⟩]
    let terms := some fun (read : List Term) term => read ++ [term]
    Trail numbers source trail ∧ Stops numbers source trail ∧ Shortens numbers ∧
      repeated numbers terms [] source
        = .ok ⟨[.number 1, .number (-2), .number 3], ['x']⟩ ∧
      repeated numbers terms [.nil] ['x'] = .ok ⟨[.nil], ['x']⟩ := by
  intro numbers source trail terms
  have htrail : Trail numbers source trail :=
    .cons rfl (by decide) (.cons rfl (by decide) (.cons rfl (by decide) .nil))
  have hstops : Stops numbers source trail := .inr ⟨_, rfl⟩
  obtain ⟨-, hall⟩ := repeated_folds_longest_trail numbers source
  obtain ⟨-, -, hfold⟩ := hall trail htrail hstops
  obtain ⟨-, hok, -, hagain⟩ := hfold (List Term) terms []
  have hread := (hok _).mpr ⟨.inr ⟨_, rfl, rfl⟩, rfl⟩
  exact ⟨htrail, hstops, shortens_number _, hread,
    hagain (shortens_number _) _ hread (List Term) terms [.nil]⟩

/-- A parser that lengthens its input is asked once, and its value is folded in once. -/
example : star (fun source => .ok ⟨source.length, 'x' :: source⟩) (· + ·) 1 ['a', 'b']
    = .ok ⟨3, ['x', 'a', 'b']⟩ := by cbv

/-! ## Blanks -/

/-- To repeat a parser of one character is to drop characters for as long as they are expected. -/
theorem exists_run_skipOneOf (chars source : List Char) :
    ∃ values, Run (skipOneOf chars) source values (source.dropWhile chars.contains) := by
  induction source with
  | nil => exact ⟨[], .stop (declines_of_failAt rfl)⟩
  | cons c rest ih =>
    by_cases hc : chars.contains c = true
    · obtain ⟨values, hrun⟩ := ih
      refine ⟨() :: values, .step (if_pos hc) (Nat.lt_succ_self _) ?_⟩
      rwa [List.dropWhile_cons_of_pos hc]
    · refine ⟨[], ?_⟩
      rw [List.dropWhile_cons_of_neg hc]
      exact .stop (declines_of_failAt (if_neg hc))

/-- The blanks that the parsers of atoms and lists skip are those that a repetition reads. -/
theorem skipMany_blanks (source : List Char) :
    skipMany (skipOneOf blanks) source = .ok ⟨(), skipBlanks source⟩ := by
  obtain ⟨values, hrun⟩ := exists_run_skipOneOf blanks source
  exact hrun.repeated_eq none ()

end ScopeLisp.Reader
