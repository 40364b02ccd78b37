import ScopeLisp.Proofs.Kinds

/-!
# Which errors escape

An input is answered in one of three ways: it cannot be read, or it is read and its evaluation
stops with an error of the language, or it is read and has a value, which is rendered. Misuse of
the library, such as a handle to a frame that is gone or an operand that is not there, is no
outcome of the scopes, and so by refinement no outcome of the stack. What is rendered holds
nothing foreign, because nothing foreign is read, and a session does not leave the proper terms.

One error does escape. A value may hold a number that has too many digits to be written, although it
fits the width and was read or computed without complaint; then there is no answer. It takes more
than fourteen thousand bits to get there: under smaller widths no number is too long, and a session
does not leave the terms without such numbers.

* `Reader.isProper_of_parse`: nothing foreign is read, whatever the width.
* `Session.evaluate_ok_or_language`: evaluation gives a value or stops with an error of the
  language.
* `Session.respond_cases`: every input of a session is answered, unless its value is too long.
* `Session.no_internal_error`: all of this, for every reachable session.
-/

namespace ScopeLisp

/-! ## Reading -/

namespace Reader

open Grammar

variable {width : WidthSetting}

theorem forall_of_run {kind : Term → Prop} {inside after : List Char} {terms : List Term}
    (hrun : Run (term width) inside terms after)
    (hterm : ∀ s parsed, s.length ≤ inside.length → term width s = .ok parsed →
      kind parsed.value) : ∀ t ∈ terms, kind t := by
  induction hrun with
  | stop _ => exact nofun
  | stuck hread hlong => exact absurd (shortens_term _ _ _ hread) hlong
  | step hread hshort _ ih =>
    have hrest := ih fun s parsed hs => hterm s parsed (Nat.le_trans hs (Nat.le_of_lt hshort))
    exact List.forall_mem_cons.mpr ⟨hterm _ _ (Nat.le_refl _) hread, hrest⟩

/-- All that is read is of a kind that has the atoms that are read, and the lists of its terms. -/
theorem term_of_kind (kind : Term → Prop)
    (hatom : ∀ s parsed, atom width s = .ok parsed → kind parsed.value)
    (hlist : ∀ terms, (∀ t ∈ terms, kind t) → kind (.list terms)) {source : List Char}
    {parsed : Parsed Term} (h : term width source = .ok parsed) : kind parsed.value := by
  induction hn : source.length using Nat.strongRecOn generalizing source parsed with
  | _ n ih =>
    rw [term_eq] at h
    obtain ⟨p, hp, hread⟩ := exists_of_alternative_ok h
    simp only [List.mem_cons, List.not_mem_nil, or_false] at hp
    rcases hp with rfl | rfl
    · exact hatom source parsed hread
    · obtain ⟨inside, terms, after, hvalue, hopen, hrun, -⟩ := list_eq_ok_iff.mp hread
      have hinside := length_skipBlanks_le source
      rw [hopen, List.length_cons] at hinside
      rw [hvalue]
      -- the elements stand in a shorter input than the list
      refine hlist terms (forall_of_run hrun fun s parsed hs hterm => ?_)
      exact ih s.length (by omega) hterm rfl

section Atom

variable {source : List Char} {parsed : Parsed Term}

theorem isProper_of_number (h : number width source = .ok parsed) :
    parsed.value.isProper = true := by
  simp only [number] at h
  split at h
  · cases h
  · split at h
    · cases h
    · split at h <;> cases h
      rfl

theorem isProper_of_string (h : string source = .ok parsed) : parsed.value.isProper = true := by
  rw [string] at h
  split at h
  · obtain ⟨body, -, rfl⟩ := exists_of_map_ok h
    rfl
  · cases h

theorem isProper_of_literal (h : literal source = .ok parsed) : parsed.value.isProper = true := by
  have hproper : ∀ entry ∈ literals, entry.2.isProper = true := List.all_eq_true.mp rfl
  simp only [literal] at h
  split at h
  · rename_i spelling meant hfind
    cases h
    exact hproper _ (List.mem_of_find?_eq_some hfind)
  · cases h

theorem isProper_of_identifier (h : identifier source = .ok parsed) :
    parsed.value.isProper = true := by
  rw [identifier] at h
  split at h
  · cases h
  · split at h
    · cases h
    · split at h <;> cases h
      rfl

theorem isProper_of_atom (h : atom width source = .ok parsed) : parsed.value.isProper = true := by
  obtain ⟨p, hp, hread⟩ := exists_of_alternative_ok h
  simp only [List.mem_cons, List.not_mem_nil, or_false] at hp
  rcases hp with rfl | rfl | rfl | rfl
  · exact isProper_of_number hread
  · exact isProper_of_string hread
  · exact isProper_of_literal hread
  · exact isProper_of_identifier hread

end Atom

theorem isProper_of_parse {source : String} {t : Term} (h : parse width source = .ok t) :
    t.isProper = true := by
  obtain ⟨rest, hterm, -⟩ := parse_eq_ok_iff.mp h
  exact term_of_kind (fun t => t.isProper = true) (fun _ _ => isProper_of_atom)
    (fun terms hterms => Term.isProperAll_iff.mpr hterms) hterm

end Reader

namespace Session

open Scopes Interpreter

theorem closedKind_isProper (width : WidthSetting) :
    ClosedKind width fun t => t.isProper = true where
  nil := rfl
  number _ _ := rfl
  element _ h := Term.isProperAll_iff.mp h

theorem closedKind_all (width : WidthSetting) : ClosedKind width fun _ => True where
  nil := trivial
  number _ _ := trivial
  element _ _ _ _ := trivial

theorem supplies_isProper (input : Input) : input.Supplies fun t => t.isProper = true where
  closed := closedKind_isProper _
  reads _ := Reader.isProper_of_parse

variable {machine : Machine}

/-! ## Evaluation -/

/-- Under a well-formed width the outcome of a term, whatever is bound and whatever is in the term,
is a value or an error of the language. -/
theorem answer_ok_or_language (width : Width) (term : Term) (machine : Machine) :
    (∃ value, (globalOutcome (.ok width) term machine).answer = .ok value) ∨
    ∃ error, (globalOutcome (.ok width) term machine).answer = .error (.language error) := by
  have hkeeps : (globalOutcome (.ok width) term machine).Keeps (.ok width) fun _ => True :=
    globalOutcome_keeps (closedKind_all _) trivial fun _ _ => ⟨trivial, trivial⟩
  cases hanswer : (globalOutcome (.ok width) term machine).answer with
  | ok value => exact .inl ⟨value, rfl⟩
  | error stop =>
    cases stop with
    | language error => exact .inr ⟨error, rfl⟩
    | setting e => cases hkeeps.setting e hanswer

theorem evaluate_ok_or_language (h : AtRest machine) (width : Width) (term : Term) :
    (∃ result after,
      Evaluation.evaluate (.ok width) term globalContext machine = .ok result after) ∨
    ∃ error after,
      Evaluation.evaluate (.ok width) term globalContext machine
        = .error (.language error) after := by
  have hs := showsPlain_of_frames_eq h.frames_eq
  obtain ⟨after, hrun, -, -⟩ := Evaluation.refines (.ok width) term _ machine _ _ hs
  have hrun : Evaluation.evaluate (.ok width) term globalContext machine
    = (globalOutcome (.ok width) term machine).result after := hrun
  rw [hrun, Outcome.result]
  rcases answer_ok_or_language width term machine with ⟨value, hanswer⟩ | ⟨error, hanswer⟩
  · rw [hanswer]
    exact .inl ⟨_, after, rfl⟩
  · rw [hanswer]
    exact .inr ⟨error, after, rfl⟩

/-! ## Answers -/

/-- The text answers the source: it is the message of the failure to read it, or the message of
the error in which its evaluation ends, or its value in one line. -/
inductive Answers (width : WidthSetting) (source : String) (machine : Machine) : String → Prop
  | unreadable {failure : Reader.Failure} {after : Machine} :
    Reader.parse width source = .error (.failure failure) →
    Interpreter.eval width source machine = .error (.unreadable failure) after →
    Answers width source machine failure.message
  | stopped {term : Term} {error : EvalError} {after : Machine} :
    Reader.parse width source = .ok term →
    Interpreter.eval width source machine = .error (.fault (.language error)) after →
    Answers width source machine error.message
  | value {term value : Term} {after : Machine} {text : String} :
    Reader.parse width source = .ok term →
    Interpreter.eval width source machine = .ok value after → value.render = .ok text →
    Answers width source machine text

/-- The source has a value, and a number in it has too many digits to be written. -/
def HasLongValue (width : WidthSetting) (source : String) (machine : Machine) : Prop :=
  ∃ value after, Interpreter.eval width source machine = .ok value after ∧
    value.isWritable = false

theorem not_hasLongValue_of_error {width : WidthSetting} {source : String} {after : Machine}
    {obstacle : Obstacle} (h : Interpreter.eval width source machine = .error obstacle after) :
    ¬ HasLongValue width source machine := by
  rintro ⟨value, final, hvalue, -⟩
  cases h.symm.trans hvalue

theorem respond_cases (h : AtRest machine)
    (hproper : (globalValues machine).Within fun t => t.isProper = true) (width : Width)
    (source : String) :
    (∃ text after, Interpreter.respond (.ok width) source machine = .ok text after ∧
      Answers (.ok width) source machine text ∧ ¬ HasLongValue (.ok width) source machine) ∨
    ∃ after, Interpreter.respond (.ok width) source machine = .error (.misuse .overlong) after ∧
      HasLongValue (.ok width) source machine := by
  rcases eval_cases (.ok width) source h with ⟨e, hparse, -⟩ | ⟨failure, after, hparse, hrun, -⟩ |
      ⟨term, after, hparse, hrun, -⟩
  · obtain ⟨failure, hfailure⟩ := Grammar.exists_failure_of_parse hparse
    cases hfailure
  · have hnone := not_hasLongValue_of_error hrun
    refine .inl ⟨failure.message, ?_⟩
    rw [Interpreter.respond, hrun]
    exact ⟨_, rfl, .unreadable hparse hrun, hnone⟩
  · rcases answer_ok_or_language width term machine with ⟨value, hanswer⟩ | ⟨error, hanswer⟩
    · rw [inputResult, hanswer] at hrun
      have hvalue : value.isProper = true :=
        eval_of_kind (supplies_isProper (.eval (.ok width) source)) h hproper hrun
      cases hwritable : value.isWritable with
      | true =>
        have hrender := Term.render_of_isWritable hvalue hwritable
        refine .inl ⟨value.spelled, after, ?_, .value hparse hrun hrender, ?_⟩
        · simp only [Interpreter.respond, hrun, hrender]
        · rintro ⟨other, final, hother, hlong⟩
          cases hrun.symm.trans hother
          exact Bool.false_ne_true (hlong.symm.trans hwritable)
      | false =>
        have hrender := Term.render_of_not_isWritable hvalue hwritable
        refine .inr ⟨after, ?_, value, after, hrun, hwritable⟩
        simp only [Interpreter.respond, hrun, hrender]
    · rw [inputResult, hanswer] at hrun
      have hnone := not_hasLongValue_of_error hrun
      refine .inl ⟨error.message, ?_⟩
      rw [Interpreter.respond, hrun]
      exact ⟨_, rfl, .stopped hparse hrun, hnone⟩

/-! ## Numbers that are too long -/

/-- The most bits under which every number is short enough to be written. -/
def writableBits : Nat := 14285

theorem isWritable_of_bits_le {width : Width} (hbits : width.bits ≤ writableBits) {n : Int}
    (h : width.low ≤ n ∧ n ≤ width.high) : Text.isWritable n = true := by
  have hmagnitude : n.natAbs ≤ width.half := by
    simp only [Width.low, Width.high] at h
    omega
  let widest : Width := ⟨writableBits, by decide⟩
  have hhalf : width.half ≤ widest.half := Width.half_mono hbits
  have hdigits : widest.half < Nat.pow 10 Text.maxDigits := by decide +kernel
  exact Text.isWritable_iff.mpr (Nat.lt_of_le_of_lt (hmagnitude.trans hhalf) hdigits)

theorem closedKind_isWritable {width : Width} (hbits : width.bits ≤ writableBits) :
    ClosedKind (.ok width) fun t => t.isWritable = true where
  nil := rfl
  number _ h := isWritable_of_bits_le hbits (h width rfl)
  element _ h := Term.isWritableAll_iff.mp h

theorem isWritable_of_readable {width : Width} (hbits : width.bits ≤ writableBits) {t : Term}
    (h : Grammar.Readable width t) : t.isWritable = true := by
  induction h with
  | nil | boolean | string | identifier => rfl
  | number hfits => exact isWritable_of_bits_le hbits hfits
  | list _ ih => exact Term.isWritableAll_iff.mpr ih

theorem supplies_isWritable {input : Input} {width : Width} (hinput : input.width = .ok width)
    (hbits : width.bits ≤ writableBits) : input.Supplies fun t => t.isWritable = true where
  closed := hinput ▸ closedKind_isWritable hbits
  reads _ hparse := isWritable_of_readable hbits (Grammar.readable_of_parse (hinput ▸ hparse))

/-- Under widths that are small enough, no value of a session is too long. -/
theorem not_hasLongValue {width : Width} (hbits : width.bits ≤ writableBits)
    {inputs : List Input}
    (hinputs : ∀ input ∈ inputs, ∃ w, input.width = .ok w ∧ w.bits ≤ writableBits)
    (source : String) : ¬ HasLongValue (.ok width) source (run inputs start) := by
  rintro ⟨value, after, hrun, hlong⟩
  have hvalues : (globalValues (run inputs start)).Within fun t => t.isWritable = true := by
    refine run_start_within fun input hinput => ?_
    obtain ⟨w, hwidth, hw⟩ := hinputs input hinput
    exact supplies_isWritable hwidth hw
  have hvalue : value.isWritable = true :=
    eval_of_kind (supplies_isWritable rfl hbits) (atRest_run atRest_start inputs) hvalues hrun
  exact Bool.false_ne_true (hlong.symm.trans hvalue)

/-- The numeral of a number that fits the width has the number for its value, in every machine. -/
theorem eval_number {width : Width} {n : Int} (h : width.low ≤ n ∧ n ≤ width.high)
    (machine : Machine) :
    Interpreter.eval (.ok width) (Term.number n).write machine = .ok (.number n) machine := by
  have hreadable : Grammar.Readable width (.number n) := .number h
  simp only [Interpreter.eval, bind, EStateM.bind, Interpreter.read, hreadable.parse_write]
  rfl

/-- The numeral of a number that fits the width and is too long has no answer. -/
theorem respond_number {width : Width} {n : Int} (h : width.low ≤ n ∧ n ≤ width.high)
    (hlong : Text.isWritable n = false) (machine : Machine) :
    Interpreter.respond (.ok width) (Term.number n).write machine
      = .error (.misuse .overlong) machine := by
  have hrender : (Term.number n).render = .error .overlong :=
    Term.render_of_not_isWritable rfl hlong
  simp only [Interpreter.respond, eval_number h, hrender]

theorem hasLongValue_number {width : Width} {n : Int} (h : width.low ≤ n ∧ n ≤ width.high)
    (hlong : Text.isWritable n = false) (machine : Machine) :
    HasLongValue (.ok width) (Term.number n).write machine :=
  ⟨.number n, machine, eval_number h machine, hlong⟩

/-! ## Sessions -/

theorem failure_label_ne (failure : Reader.Failure) (error : EvalError) :
    failure.label ≠ error.label := by
  have hfailure : failure.label = "GuciOverflowParseError" ∨ failure.label = "GuciParseError" := by
    rw [Reader.Failure.label]
    split
    · exact .inl rfl
    · exact .inr rfl
  rcases hfailure with h | h <;> rw [h] <;> cases error <;> simp [EvalError.label]

/-- In every session, whatever inputs it was given under whatever settings, and under every
well-formed width: reading a source gives a term or a failure to read, and evaluating any term in
the global context gives a value or an error of the language, and so never a malformed setting or a
misuse of the library. The two families of errors have no class in common. A source is answered by a
text, which is the message of the one error or the other, or the value, unless a number in its value
has too many digits to be written. In that case there is no answer but the complaint about the
number. A number that fits the width and has too many digits comes to that by itself; and it never
happens in a session whose widths are all small enough. -/
theorem no_internal_error (width : Width) (inputs : List Input) :
    (∀ source, (∃ term, Reader.parse (.ok width) source = .ok term) ∨
      ∃ failure, Reader.parse (.ok width) source = .error (.failure failure)) ∧
    (∀ term,
      (∃ result after, Evaluation.evaluate (.ok width) term globalContext (run inputs start)
        = .ok result after) ∨
      ∃ error after, Evaluation.evaluate (.ok width) term globalContext (run inputs start)
        = .error (.language error) after) ∧
    (∀ (failure : Reader.Failure) (error : EvalError), failure.label ≠ error.label) ∧
    (∀ source, ¬ HasLongValue (.ok width) source (run inputs start) →
      ∃ text after, Interpreter.respond (.ok width) source (run inputs start) = .ok text after ∧
        Answers (.ok width) source (run inputs start) text) ∧
    (∀ source, HasLongValue (.ok width) source (run inputs start) →
      ∃ after, Interpreter.respond (.ok width) source (run inputs start)
        = .error (.misuse .overlong) after) ∧
    (∀ n, width.low ≤ n ∧ n ≤ width.high → Text.isWritable n = false →
      HasLongValue (.ok width) (Term.number n).write (run inputs start)) ∧
    (width.bits ≤ writableBits →
      (∀ input ∈ inputs, ∃ w, input.width = .ok w ∧ w.bits ≤ writableBits) →
      ∀ source, ¬ HasLongValue (.ok width) source (run inputs start)) := by
  have hrest : AtRest (run inputs start) := atRest_run atRest_start inputs
  have hproper : (globalValues (run inputs start)).Within fun t => t.isProper = true :=
    run_start_within fun input _ => supplies_isProper input
  refine ⟨fun source => ?_, evaluate_ok_or_language hrest width, failure_label_ne,
    fun source hnone => ?_, fun source hlong => ?_,
    fun n h hlong => hasLongValue_number h hlong _,
    fun hbits hinputs => not_hasLongValue hbits hinputs⟩
  · cases hparse : Reader.parse (.ok width) source with
    | ok term => exact .inl ⟨term, rfl⟩
    | error e =>
      obtain ⟨failure, rfl⟩ := Grammar.exists_failure_of_parse hparse
      exact .inr ⟨failure, rfl⟩
  · rcases respond_cases hrest hproper width source with ⟨text, after, hrun, hanswers, -⟩ |
        ⟨after, -, hlong⟩
    · exact ⟨text, after, hrun, hanswers⟩
    · exact absurd hlong hnone
  · rcases respond_cases hrest hproper width source with ⟨text, after, -, -, hnone⟩ |
        ⟨after, hrun, -⟩
    · exact absurd hlong hnone
    · exact ⟨after, hrun⟩

/-- Under fifteen thousand bits the numeral of the least number that is too long has no answer;
under sixty-four bits it cannot be read, and that is its answer. -/
theorem no_internal_error_long_number :
    let long : Int := (Nat.pow 10 Text.maxDigits : Nat)
    (∃ after, Interpreter.respond (.ok ⟨15000, by decide⟩) (Term.number long).write start
      = .error (.misuse .overlong) after) ∧
    ∃ text after, Interpreter.respond (.ok ⟨64, by decide⟩) (Term.number long).write start
        = .ok text after ∧
      Answers (.ok ⟨64, by decide⟩) (Term.number long).write start text := by
  intro long
  obtain ⟨-, -, -, -, hfails, hlong, -⟩ := no_internal_error ⟨15000, by decide⟩ []
  obtain ⟨-, -, -, hanswered, -, -, hnone⟩ := no_internal_error ⟨64, by decide⟩ []
  refine ⟨hfails _ (hlong long (by decide +kernel) Text.isWritable_pow_maxDigits),
    hanswered _ (hnone (by decide) nofun _)⟩

end Session

end ScopeLisp
