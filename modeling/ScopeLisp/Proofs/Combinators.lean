import ScopeLisp.Reader.Expression

/-!
# Choice and repetition

A parser declines an input when it fails there and leaves room for other parsers. A choice passes
over the parsers that decline and takes the answer of the next one. A repetition goes on until its
parser declines, or until a match does not shorten the input.

* `alternative_cons_eq_ok_iff`: when a choice reads something.
* `declines_alternative_iff`: a choice declines exactly where all of its parsers decline.
* `alternative_of_balks`, `alternative_eq_first`, `alternative_eq_second`: which failure a choice
  reports if some of its parsers do not get past the first character (`Balks`).
* `star_eq_ok_iff`: a repetition is a fold over its run.
* `exists_of_alternative_setting`, `exists_of_star_error`: only the parsers that are chosen from
  or repeated complain about settings, and only an element ends a repetition in an error.
-/

namespace ScopeLisp.Reader

variable {α β : Type}

/-- The parser fails at the input and leaves room for other parsers. -/
def Declines (p : Parser α) (source : List Char) : Prop :=
  ∃ failure : Failure, p source = .error (.failure failure) ∧ failure.fatal = false

theorem Declines.ne_ok {p : Parser α} {source : List Char} (h : Declines p source)
    (parsed : Parsed α) : p source ≠ .ok parsed := by
  obtain ⟨failure, hfail, -⟩ := h
  rw [hfail]
  intro hok
  cases hok

theorem declines_of_failAt {p : Parser α} {source rest : List Char} {cause : Cause}
    (h : p source = failAt cause rest) : Declines p source :=
  ⟨_, h, rfl⟩

/-! ## Choice -/

/-- Earlier failures only matter to the failure that is reported in the end. -/
theorem tryEach_eq_ok_iff {source : List Char} {failures : List Failure}
    {parsers : List (Parser α)} {parsed : Parsed α} :
    tryEach source failures parsers = .ok parsed ↔ tryEach source [] parsers = .ok parsed := by
  induction parsers generalizing failures with
  | nil =>
    rw [tryEach, tryEach]
    constructor
    · intro h
      cases h
    · intro h
      cases h
  | cons p ps ih =>
    rw [tryEach, tryEach]
    split
    · exact Iff.rfl
    · exact Iff.rfl
    · split
      · exact Iff.rfl
      · exact ih.trans ih.symm

theorem alternative_nil_ne_ok (source : List Char) (parsed : Parsed α) :
    alternative [] source ≠ .ok parsed := by
  rw [alternative, tryEach]
  intro hok
  cases hok

theorem alternative_cons_eq_ok_iff {p : Parser α} {ps : List (Parser α)} {source : List Char}
    {parsed : Parsed α} :
    alternative (p :: ps) source = .ok parsed ↔
      p source = .ok parsed ∨ Declines p source ∧ alternative ps source = .ok parsed := by
  rw [alternative_cons]
  constructor
  · intro h
    split at h
    case h_1 first hfirst => exact .inl (hfirst.trans h)
    case h_2 => cases h
    case h_3 failure hfailure =>
      split at h
      · cases h
      · rename_i hsoft
        exact .inr ⟨⟨failure, hfailure, Bool.not_eq_true _ ▸ hsoft⟩, tryEach_eq_ok_iff.mp h⟩
  · rintro (h | ⟨⟨failure, hfailure, hsoft⟩, h⟩)
    · rw [h]
    · simp only [hfailure, hsoft, Bool.false_eq_true, if_false]
      exact tryEach_eq_ok_iff.mpr h

/-- The failure that got furthest is one of those it was chosen from. -/
theorem furthest?_mem {failures : List Failure} {failure : Failure}
    (h : furthest? failures = some failure) : failure ∈ failures := by
  have hfold : ∀ (rest : List Failure) (first : Failure),
      rest.foldl Failure.further first ∈ first :: rest := by
    intro rest
    induction rest with
    | nil => exact fun first => List.mem_singleton.mpr rfl
    | cons second rest ih =>
      intro first
      rw [List.foldl_cons]
      have hmem := ih (first.further second)
      rcases List.mem_cons.mp hmem with heq | hrest
      · rw [heq, Failure.further]
        split
        · exact List.mem_cons_of_mem _ List.mem_cons_self
        · exact List.mem_cons_self
      · exact List.mem_cons_of_mem _ (List.mem_cons_of_mem _ hrest)
  cases failures with
  | nil => cases h
  | cons first rest =>
    cases h
    exact hfold rest first

theorem diagnose_fatal (source : List Char) {failures : List Failure}
    (h : ∀ failure ∈ failures, failure.fatal = false) :
    (diagnose source failures).fatal = false := by
  unfold diagnose
  dsimp only
  split
  · rename_i failure hfurthest
    exact h failure (List.mem_filter.mp (furthest?_mem hfurthest)).1
  · rfl

theorem declines_tryEach {source : List Char} {failures : List Failure}
    {parsers : List (Parser α)} (hfailures : ∀ failure ∈ failures, failure.fatal = false)
    (hparsers : ∀ p ∈ parsers, Declines p source) :
    Declines (fun source => tryEach source failures parsers) source := by
  induction parsers generalizing failures with
  | nil =>
    refine ⟨diagnose source failures, ?_, diagnose_fatal source hfailures⟩
    dsimp only
    rw [tryEach]
  | cons p ps ih =>
    obtain ⟨failure, hfailure, hsoft⟩ := hparsers p List.mem_cons_self
    have hmore : ∀ other ∈ failures ++ [failure], other.fatal = false :=
      List.forall_mem_append.mpr ⟨hfailures, List.forall_mem_singleton.mpr hsoft⟩
    have hrest := ih hmore fun q hq => hparsers q (List.mem_cons_of_mem _ hq)
    obtain ⟨last, hlast, hlastSoft⟩ := hrest
    refine ⟨last, ?_, hlastSoft⟩
    dsimp only at hlast ⊢
    simp only [tryEach, hfailure, hsoft, Bool.false_eq_true, if_false]
    exact hlast

theorem declines_of_tryEach {source : List Char} {failures : List Failure}
    {parsers : List (Parser α)}
    (h : Declines (fun source => tryEach source failures parsers) source) :
    ∀ p ∈ parsers, Declines p source := by
  induction parsers generalizing failures with
  | nil => exact nofun
  | cons p ps ih =>
    obtain ⟨failure, hfailure, hsoft⟩ := h
    simp only [tryEach] at hfailure
    split at hfailure
    case h_1 => cases hfailure
    case h_2 => cases hfailure
    case h_3 first hfirst =>
      split at hfailure
      · rename_i hfatal
        cases hfailure
        rw [hsoft] at hfatal
        cases hfatal
      · rename_i hfirstSoft
        intro q hq
        rcases List.mem_cons.mp hq with rfl | hq
        · exact ⟨first, hfirst, Bool.not_eq_true _ ▸ hfirstSoft⟩
        · exact ih ⟨failure, hfailure, hsoft⟩ q hq

theorem declines_alternative_iff {parsers : List (Parser α)} {source : List Char} :
    Declines (alternative parsers) source ↔ ∀ p ∈ parsers, Declines p source := by
  constructor
  · exact declines_of_tryEach
  · exact declines_tryEach nofun

theorem declines_alternative {parsers : List (Parser α)} {source : List Char}
    (h : ∀ p ∈ parsers, Declines p source) : Declines (alternative parsers) source :=
  declines_alternative_iff.mpr h

/-- A failure that leaves no room for other parsers is passed on as it is. -/
theorem exists_of_alternative_fatal {parsers : List (Parser α)} {source : List Char}
    {failure : Failure} (h : alternative parsers source = .error (.failure failure))
    (hfatal : failure.fatal = true) : ∃ p ∈ parsers, p source = .error (.failure failure) := by
  -- the failures collected on the way are all soft, and so is any of them that is reported
  have hfrom : ∀ failures : List Failure, (∀ f ∈ failures, f.fatal = false) →
      tryEach source failures parsers = .error (.failure failure) →
      ∃ p ∈ parsers, p source = .error (.failure failure) := by
    clear h
    induction parsers with
    | nil =>
      intro failures hsoft h
      cases h
      rw [diagnose_fatal source hsoft] at hfatal
      cases hfatal
    | cons p ps ih =>
      intro failures hsoft h
      rw [tryEach] at h
      split at h
      case h_1 => cases h
      case h_2 => cases h
      case h_3 first hfirst =>
        split at h
        · exact ⟨p, List.mem_cons_self, hfirst.trans h⟩
        · rename_i hfirstSoft
          have hmore : ∀ f ∈ failures ++ [first], f.fatal = false :=
            List.forall_mem_append.mpr
              ⟨hsoft, List.forall_mem_singleton.mpr (Bool.not_eq_true _ ▸ hfirstSoft)⟩
          obtain ⟨q, hq, hread⟩ := ih _ hmore h
          exact ⟨q, List.mem_cons_of_mem _ hq, hread⟩
  exact hfrom [] (List.forall_mem_nil _) h

/-! ## Parsers that do not begin -/

/-- The parser declines the input and has not got past the first character that is not blank. -/
def Balks (p : Parser α) (source : List Char) : Prop :=
  ∃ failure : Failure, p source = .error (.failure failure) ∧ failure.fatal = false ∧
    failure.isPast (skipBlanks source).length = false

theorem balks_of_failAt {p : Parser α} {source rest : List Char} {cause : Cause}
    (h : p source = failAt cause rest) (hrest : (skipBlanks source).length ≤ rest.length) :
    Balks p source :=
  ⟨_, h, rfl, decide_eq_false (Nat.not_lt.mpr hrest)⟩

theorem tryEach_of_balks {source : List Char} {failures : List Failure}
    {parsers : List (Parser α)}
    (hfailures : ∀ failure ∈ failures, failure.isPast (skipBlanks source).length = false)
    (hparsers : ∀ p ∈ parsers, Balks p source) :
    tryEach source failures parsers = failAt .noAlternative source := by
  induction parsers generalizing failures with
  | nil =>
    have hnone : failures.filter (·.isPast (skipBlanks source).length) = [] := by
      rw [List.filter_eq_nil_iff]
      intro failure hfailure
      rw [hfailures failure hfailure]
      exact Bool.false_ne_true
    rw [tryEach, diagnose, hnone]
    rfl
  | cons p ps ih =>
    obtain ⟨failure, hfailure, hsoft, hpast⟩ := hparsers p List.mem_cons_self
    have hmore : ∀ f ∈ failures ++ [failure], f.isPast (skipBlanks source).length = false :=
      List.forall_mem_append.mpr ⟨hfailures, List.forall_mem_singleton.mpr hpast⟩
    simp only [tryEach, hfailure, hsoft, Bool.false_eq_true, if_false]
    exact ih hmore fun q hq => hparsers q (List.mem_cons_of_mem _ hq)

/-- Where no parser gets past the beginning, a choice says that nothing matched. -/
theorem alternative_of_balks {parsers : List (Parser α)} {source : List Char}
    (h : ∀ p ∈ parsers, Balks p source) :
    alternative parsers source = failAt .noAlternative source :=
  tryEach_of_balks nofun h

/-- The second of two parsers decides where the first one does not begin, provided that it gets
further whenever it declines. -/
theorem alternative_eq_second {p q : Parser α} {source : List Char} (hp : Balks p source)
    (hq : ∀ failure, q source = .error (.failure failure) → failure.fatal = false →
      failure.isPast (skipBlanks source).length = true) :
    alternative [p, q] source = q source := by
  obtain ⟨first, hfirst, hsoft, hpast⟩ := hp
  simp only [alternative, tryEach, hfirst, hsoft, Bool.false_eq_true, if_false]
  cases houtcome : q source with
  | ok parsed => rfl
  | error e =>
    cases e with
    | setting error => rfl
    | failure failure =>
      cases hfatal : failure.fatal with
      | true => simp only [hfatal, if_true]
      | false => simp [diagnose, furthest?, hfatal, hpast, hq failure houtcome hfatal]

/-- The first of two parsers decides where the second one does not begin, provided that all it
says when it declines is that nothing matched. -/
theorem alternative_eq_first {p q : Parser α} {source : List Char} (hq : Balks q source)
    (hp : Declines p source → p source = failAt .noAlternative source) :
    alternative [p, q] source = p source := by
  by_cases hdeclines : Declines p source
  · rw [hp hdeclines]
    apply alternative_of_balks
    intro r hr
    simp only [List.mem_cons, List.not_mem_nil, or_false] at hr
    rcases hr with rfl | rfl
    · exact balks_of_failAt (hp hdeclines) (length_skipBlanks_le source)
    · exact hq
  · rw [alternative_cons]
    cases houtcome : p source with
    | ok parsed => rfl
    | error e =>
      cases e with
      | setting error => rfl
      | failure failure =>
        cases hfatal : failure.fatal with
        | true => simp only [hfatal, if_true]
        | false => exact absurd ⟨failure, houtcome, hfatal⟩ hdeclines

/-! ## Repetition -/

/-- The values that a repetition of `p` reads one after the other, and the input after them. -/
inductive Run (p : Parser α) : List Char → List α → List Char → Prop
  | stop {source : List Char} : Declines p source → Run p source [] source
  /-- A match that does not shorten the input is the last one. -/
  | stuck {source rest : List Char} {value : α} :
    p source = .ok ⟨value, rest⟩ → ¬ rest.length < source.length → Run p source [value] rest
  | step {source middle rest : List Char} {value : α} {values : List α} :
    p source = .ok ⟨value, middle⟩ → middle.length < source.length → Run p middle values rest →
    Run p source (value :: values) rest

theorem Run.star_eq {p : Parser α} {source rest : List Char} {values : List α}
    (h : Run p source values rest) (op : β → α → β) (initial : β) :
    star p op initial source = .ok ⟨values.foldl op initial, rest⟩ := by
  induction h generalizing initial with
  | stop h =>
    obtain ⟨failure, hfailure, hsoft⟩ := h
    rw [Reader.star_eq]
    simp only [hfailure, hsoft, Bool.false_eq_true, if_false, List.foldl_nil]
  | stuck h hlong =>
    rw [Reader.star_eq]
    simp only [h, if_neg hlong, List.foldl_cons, List.foldl_nil]
  | step h hshort _ ih =>
    rw [Reader.star_eq]
    simp only [h, if_pos hshort, List.foldl_cons]
    exact ih _

theorem exists_run_of_star {p : Parser α} {op : β → α → β} {initial : β} {source : List Char}
    {parsed : Parsed β} (h : star p op initial source = .ok parsed) :
    ∃ values, Run p source values parsed.rest ∧ parsed.value = values.foldl op initial := by
  rw [star_eq] at h
  split at h
  case h_1 failure hfailure =>
    split at h
    · cases h
    · rename_i hsoft
      cases h
      exact ⟨[], .stop ⟨failure, hfailure, Bool.not_eq_true _ ▸ hsoft⟩, rfl⟩
  case h_2 => cases h
  case h_3 value rest hfirst =>
    split at h
    · rename_i hshort
      obtain ⟨values, hrun, hvalue⟩ := exists_run_of_star h
      exact ⟨value :: values, .step hfirst hshort hrun, hvalue⟩
    · rename_i hlong
      cases h
      exact ⟨[value], .stuck hfirst hlong, rfl⟩
termination_by source.length

theorem star_eq_ok_iff {p : Parser α} {op : β → α → β} {initial value : β}
    {source rest : List Char} :
    star p op initial source = .ok ⟨value, rest⟩ ↔
      ∃ values, Run p source values rest ∧ value = values.foldl op initial := by
  constructor
  · exact exists_run_of_star
  · rintro ⟨values, hrun, rfl⟩
    exact hrun.star_eq op initial

theorem many_eq_ok_iff {p : Parser α} {source rest : List Char} {values : List α} :
    many p source = .ok ⟨values, rest⟩ ↔ Run p source values rest := by
  have hfold : ∀ values before : List α,
      values.foldl (fun values value => values ++ [value]) before = before ++ values := by
    intro values
    induction values with
    | nil => exact fun before => (List.append_nil before).symm
    | cons value values ih =>
      intro before
      rw [List.foldl_cons, ih, List.append_assoc, List.singleton_append]
  rw [many, star_eq_ok_iff]
  constructor
  · rintro ⟨read, hrun, rfl⟩
    rwa [hfold, List.nil_append]
  · intro hrun
    exact ⟨values, hrun, by rw [hfold, List.nil_append]⟩

/-! ## Errors -/

theorem exists_of_alternative_setting {parsers : List (Parser α)} {source : List Char}
    {error : SettingError} (h : alternative parsers source = .error (.setting error)) :
    ∃ p ∈ parsers, p source = .error (.setting error) := by
  rw [alternative] at h
  generalize ([] : List Failure) = failures at h
  induction parsers generalizing failures with
  | nil => cases h
  | cons p ps ih =>
    rw [tryEach] at h
    split at h
    case h_1 => cases h
    case h_2 other hother => exact ⟨p, List.mem_cons_self, hother.trans h⟩
    case h_3 failure hfailure =>
      split at h
      · cases h
      · obtain ⟨q, hq, hsetting⟩ := ih _ h
        exact ⟨q, List.mem_cons_of_mem _ hq, hsetting⟩

/-- A repetition fails only because its parser does, and never because it declines. -/
theorem exists_of_star_error {p : Parser α} {op : β → α → β} {initial : β}
    {source : List Char} {error : ReadError} (h : star p op initial source = .error error) :
    ∃ s : List Char, s.length ≤ source.length ∧ p s = .error error ∧ ¬ Declines p s := by
  rw [star_eq] at h
  split at h
  case h_1 failure hfailure =>
    split at h
    · rename_i hfatal
      refine ⟨source, Nat.le_refl _, hfailure.trans (by rw [Except.error.inj h]), ?_⟩
      rintro ⟨other, hother, hsoft⟩
      cases hfailure.symm.trans hother
      rw [hsoft] at hfatal
      cases hfatal
    · cases h
  case h_2 setting hsetting =>
    refine ⟨source, Nat.le_refl _, hsetting.trans (by rw [Except.error.inj h]), ?_⟩
    rintro ⟨failure, hfailure, -⟩
    cases hsetting.symm.trans hfailure
  case h_3 value rest hfirst =>
    split at h
    · rename_i hshort
      obtain ⟨s, hs, herror⟩ := exists_of_star_error h
      exact ⟨s, by omega, herror⟩
    · cases h
termination_by source.length

end ScopeLisp.Reader
