import ScopeLisp.Proofs.Footprint
import ScopeLisp.Proofs.Grammar.Reading

/-!
# What a failed input leaves behind

A binding call binds as soon as it is done, before the operands after it are evaluated. So an
input that fails later keeps what was bound on the way: `(+ (let b 2) c)` fails, since `c` is no
number, and `b` stays bound. This file says when a failed input leaves the global frame as it was:
exactly when no binding call of it was completed before the failure.

* `Scopes.CompletesLet`: some binding call of a term is completed.
* `Scopes.values_ne_iff_completesLet`: an evaluation changes the nearest table exactly then.
* `Session.failed_input_keeps_tables_iff`: the global tables after a failed input.
-/

namespace ScopeLisp.Scopes

/-! ## Completed binding calls -/

/-- A binding call is reached in the evaluation of the term, and the name that it asks for is
still free: the term is such a call itself, or it is arithmetic and one of its operands completes
one, after the same arithmetic on the operands before this one has succeeded. -/
inductive CompletesLet (width : WidthSetting) (outer : List Scope) : Scope → Bool → Term → Prop
  | bind {near : Scope} {quit : Bool} {name : String} (value : Term) :
    name ∉ near.values.map Prod.fst →
    CompletesLet width outer near quit (.list [.identifier "let", .identifier name, value])
  | first {near : Scope} {quit : Bool} {op : String} {operand : Term} (later : List Term) :
    op ∈ ["+", "-", "*"] → CompletesLet width outer near quit operand →
    CompletesLet width outer near quit (.list (.identifier op :: operand :: later))
  | next {near : Scope} {quit : Bool} {op : String} {earlier : List Term} {operand value : Term}
      {values : Table Term} {quit' : Bool} (later : List Term) :
    op ∈ ["+", "-", "*"] → earlier ≠ [] →
    evaluate width (.list (.identifier op :: earlier)) near outer quit
      = ⟨.ok value, values, quit'⟩ →
    CompletesLet width outer { near with values } quit' operand →
    CompletesLet width outer near quit (.list (.identifier op :: (earlier ++ operand :: later)))

/-! ## Operands in parts -/

theorem Outcome.andThen_assoc (first : Outcome)
    (second third : Term → Table Term → Bool → Outcome) :
    (first.andThen second).andThen third
      = first.andThen fun value values quit => (second value values quit).andThen third := by
  unfold Outcome.andThen
  cases first.answer <;> rfl

theorem accumulate_append (width : WidthSetting) (first second : List Term)
    (op : Int → Int → Int) (value : Term) (near : Scope) (outer : List Scope) (quit : Bool) :
    accumulate width (first ++ second) op value near outer quit
      = (accumulate width first op value near outer quit).andThen fun value values quit =>
          accumulate width second op value { near with values } outer quit := by
  induction first generalizing value near quit with
  | nil => rw [List.nil_append, accumulate]; rfl
  | cons operand rest ih =>
    rw [List.cons_append, accumulate, accumulate, Outcome.andThen_assoc]
    congr 1
    funext next values quit
    cases calculate width op value next with
    | error stop => rfl
    | ok value => exact ih value _ quit

/-- Arithmetic on several operands is arithmetic on the first of them, gone on with the rest. -/
theorem evaluate_arithmetic_append (width : WidthSetting) {name : String}
    (hname : name ∈ ["+", "-", "*"]) {near : Scope} {outer : List Scope}
    (h : Standard (near :: outer)) (quit : Bool) {earlier : List Term} (hearlier : earlier ≠ [])
    (later : List Term) :
    ∃ op : Int → Int → Int,
      evaluate width (.list (.identifier name :: (earlier ++ later))) near outer quit
        = (evaluate width (.list (.identifier name :: earlier)) near outer quit).andThen
            fun value values quit =>
              accumulate width later op value { near with values } outer quit := by
  simp only [List.mem_cons, List.not_mem_nil, or_false] at hname
  rcases hname with rfl | rfl | rfl
  · have hform : findForm (near :: outer) "+" = some .add := h "+"
    refine ⟨(· + ·), ?_⟩
    rw [evaluate_add hform, evaluate_add hform, accumulate_append]
  · have hform : findForm (near :: outer) "-" = some .subtract := h "-"
    obtain ⟨first, rest, rfl⟩ := List.exists_cons_of_ne_nil hearlier
    refine ⟨(· - ·), ?_⟩
    rw [List.cons_append, evaluate_subtract_cons hform, evaluate_subtract_cons hform,
      Outcome.andThen_assoc]
    congr 1
    funext value values quit
    exact accumulate_append width rest later _ value _ outer quit
  · have hform : findForm (near :: outer) "*" = some .multiply := h "*"
    refine ⟨(· * ·), ?_⟩
    rw [evaluate_multiply hform, evaluate_multiply hform, accumulate_append]

theorem accumulate_prefix (width : WidthSetting) (terms : List Term) (op : Int → Int → Int)
    (value : Term) {near : Scope} {outer : List Scope} (quit : Bool)
    (h : Standard (near :: outer)) :
    near.values <+: (accumulate width terms op value near outer quit).values :=
  (accumulate_writes (fun t _ => writesFootprint width t) op value quit h).isPrefix

theorem accumulate_cons_prefix (width : WidthSetting) (operand : Term) (rest : List Term)
    (op : Int → Int → Int) (value : Term) {near : Scope} {outer : List Scope} (quit : Bool)
    (h : Standard (near :: outer)) :
    (evaluate width operand near outer quit).values
      <+: (accumulate width (operand :: rest) op value near outer quit).values := by
  rw [accumulate, Outcome.andThen]
  cases (evaluate width operand near outer quit).answer with
  | error stop => exact List.prefix_rfl
  | ok next =>
    dsimp only
    cases calculate width op value next with
    | error stop => exact List.prefix_rfl
    | ok value => exact accumulate_prefix width rest op value _ (h.rebind _)

/-- Whatever the first operand of arithmetic binds is still bound in the end. -/
theorem evaluate_arithmetic_prefix (width : WidthSetting) {name : String}
    (hname : name ∈ ["+", "-", "*"]) (operand : Term) (rest : List Term) {near : Scope}
    {outer : List Scope} (quit : Bool) (h : Standard (near :: outer)) :
    (evaluate width operand near outer quit).values
      <+: (evaluate width (.list (.identifier name :: operand :: rest)) near outer
            quit).values := by
  simp only [List.mem_cons, List.not_mem_nil, or_false] at hname
  rcases hname with rfl | rfl | rfl
  · have hform : findForm (near :: outer) "+" = some .add := h "+"
    rw [evaluate_add hform]
    exact accumulate_cons_prefix width operand rest _ _ quit h
  · have hform : findForm (near :: outer) "-" = some .subtract := h "-"
    rw [evaluate_subtract_cons hform, Outcome.andThen]
    cases (evaluate width operand near outer quit).answer with
    | error stop => exact List.prefix_rfl
    | ok value => exact accumulate_prefix width rest _ value _ (h.rebind _)
  · have hform : findForm (near :: outer) "*" = some .multiply := h "*"
    rw [evaluate_multiply hform]
    exact accumulate_cons_prefix width operand rest _ _ quit h

/-! ## A completed binding call changes the table -/

theorem CompletesLet.length_lt {width : WidthSetting} {outer : List Scope} {near : Scope}
    {quit : Bool} {term : Term} (h : CompletesLet width outer near quit term)
    (hs : Standard (near :: outer)) :
    near.values.length < (evaluate width term near outer quit).values.length := by
  induction h with
  | @bind near quit name value hfree =>
    have hform : findForm (near :: outer) "let" = some .bind := hs "let"
    rw [evaluate_bind hform, extend, if_neg hfree, List.length_append]
    exact Nat.lt_succ_self _
  | @first near quit op operand later hop _ ih =>
    have hrest := evaluate_arithmetic_prefix width hop operand later quit hs
    exact Nat.lt_of_lt_of_le (ih hs) hrest.length_le
  | @next near quit op earlier operand value values quit' later hop hearlier hdone _ ih =>
    -- what the earlier operands bind comes first, then what the operand itself binds
    have hwrites := writesFootprint width (.list (.identifier op :: earlier)) near outer quit hs
    rw [hdone] at hwrites
    obtain ⟨fold, hrun⟩ :=
      evaluate_arithmetic_append width hop hs quit hearlier (operand :: later)
    rw [hrun, hdone]
    have hrest := accumulate_cons_prefix width operand later fold value quit'
      (hs.rebind values)
    calc near.values.length
        ≤ values.length := hwrites.isPrefix.length_le
      _ < (evaluate width operand { near with values } outer quit').values.length :=
          ih (hs.rebind values)
      _ ≤ _ := hrest.length_le

/-! ## A changed table comes from a completed binding call -/

/-- Whenever the evaluation of the term changes the nearest table, it completes a binding call. -/
def ChangeCompletes (width : WidthSetting) (term : Term) : Prop :=
  ∀ (near : Scope) (outer : List Scope) (quit : Bool), Standard (near :: outer) →
    (evaluate width term near outer quit).values ≠ near.values →
    CompletesLet width outer near quit term

/-- The operand that is the first to change the table. -/
theorem exists_operand_of_accumulate {width : WidthSetting} {terms : List Term}
    (ih : ∀ t ∈ terms, ChangeCompletes width t) {op : Int → Int → Int} {value : Term}
    {near : Scope} {outer : List Scope} {quit : Bool} (hs : Standard (near :: outer))
    (h : (accumulate width terms op value near outer quit).values ≠ near.values) :
    ∃ earlier operand later result values quit', terms = earlier ++ operand :: later ∧
      accumulate width earlier op value near outer quit = ⟨.ok result, values, quit'⟩ ∧
      CompletesLet width outer { near with values } quit' operand := by
  induction terms generalizing value near quit with
  | nil =>
    rw [accumulate] at h
    exact absurd rfl h
  | cons operand rest ihrest =>
    by_cases hfirst : (evaluate width operand near outer quit).values = near.values
    · rw [accumulate, Outcome.andThen] at h
      cases hanswer : (evaluate width operand near outer quit).answer with
      | error stop =>
        rw [hanswer] at h
        exact absurd hfirst h
      | ok next =>
        rw [hanswer, hfirst] at h
        cases hstep : calculate width op value next with
        | error stop =>
          simp only [hstep] at h
          exact absurd rfl h
        | ok combined =>
          simp only [hstep] at h
          obtain ⟨earlier, found, later, result, values, quit', rfl, hearlier, hfound⟩ :=
            ihrest (fun t ht => ih t (List.mem_cons_of_mem _ ht)) hs h
          refine ⟨operand :: earlier, found, later, result, values, quit', rfl, ?_, hfound⟩
          rw [accumulate, Outcome.andThen, hanswer, hfirst]
          simp only [hstep]
          exact hearlier
    · refine ⟨[], operand, rest, value, near.values, quit, rfl, ?_, ?_⟩
      · rw [accumulate]
      · exact ih operand List.mem_cons_self near outer quit hs hfirst

/-- Sums and products, which fold all their operands onto a number. -/
theorem completesLet_of_accumulate {width : WidthSetting} {name : String}
    (hname : name ∈ ["+", "-", "*"]) {arguments : List Term}
    (ih : ∀ t ∈ arguments, ChangeCompletes width t) {near : Scope} {outer : List Scope}
    {quit : Bool} (hs : Standard (near :: outer)) {op : Int → Int → Int} {value : Term}
    (heval : ∀ operands, evaluate width (.list (.identifier name :: operands)) near outer quit
      = accumulate width operands op value near outer quit)
    (h : (evaluate width (.list (.identifier name :: arguments)) near outer quit).values
      ≠ near.values) :
    CompletesLet width outer near quit (.list (.identifier name :: arguments)) := by
  rw [heval] at h
  obtain ⟨earlier, operand, later, result, values, quit', rfl, hearlier, hoperand⟩ :=
    exists_operand_of_accumulate ih hs h
  cases earlier with
  | nil =>
    rw [accumulate] at hearlier
    cases hearlier
    exact .first later hname hoperand
  | cons first rest =>
    exact .next later hname (List.cons_ne_nil first rest) ((heval _).trans hearlier) hoperand

theorem completesLet_of_subtract {width : WidthSetting} {arguments : List Term}
    (ih : ∀ t ∈ arguments, ChangeCompletes width t) {near : Scope} {outer : List Scope}
    {quit : Bool} (hs : Standard (near :: outer))
    (h : (evaluate width (.list (.identifier "-" :: arguments)) near outer quit).values
      ≠ near.values) :
    CompletesLet width outer near quit (.list (.identifier "-" :: arguments)) := by
  have hform : findForm (near :: outer) "-" = some .subtract := hs "-"
  have hname : "-" ∈ ["+", "-", "*"] := by decide
  cases arguments with
  | nil =>
    rw [evaluate_subtract_nil hform] at h
    exact absurd rfl h
  | cons first rest =>
    by_cases hfirst : (evaluate width first near outer quit).values = near.values
    · rw [evaluate_subtract_cons hform, Outcome.andThen] at h
      cases hanswer : (evaluate width first near outer quit).answer with
      | error stop =>
        rw [hanswer] at h
        exact absurd hfirst h
      | ok value =>
        rw [hanswer, hfirst] at h
        obtain ⟨earlier, operand, later, result, values, quit', rfl, hearlier, hoperand⟩ :=
          exists_operand_of_accumulate (fun t ht => ih t (List.mem_cons_of_mem _ ht)) hs h
        have hdone : evaluate width (.list (.identifier "-" :: first :: earlier)) near outer quit
            = ⟨.ok result, values, quit'⟩ := by
          rw [evaluate_subtract_cons hform, Outcome.andThen, hanswer, hfirst]
          exact hearlier
        exact .next later hname (List.cons_ne_nil first earlier) hdone hoperand
    · exact .first rest hname (ih first List.mem_cons_self near outer quit hs hfirst)

theorem completesLet_of_bind {width : WidthSetting} {arguments : List Term} {near : Scope}
    {outer : List Scope} {quit : Bool} (hs : Standard (near :: outer))
    (h : (evaluate width (.list (.identifier "let" :: arguments)) near outer quit).values
      ≠ near.values) :
    CompletesLet width outer near quit (.list (.identifier "let" :: arguments)) := by
  have hform : findForm (near :: outer) "let" = some .bind := hs "let"
  by_cases hcount : arguments.length = 2
  · obtain ⟨bound, value, rfl⟩ := List.length_eq_two.mp hcount
    rw [evaluate_bind hform] at h
    cases bound with
    | identifier name =>
      by_cases hfree : name ∈ near.values.map Prod.fst
      · rw [extend, if_pos hfree] at h
        exact absurd rfl h
      · exact .bind value hfree
    | _ => exact absurd rfl h
  · rw [evaluate_bind_miscount hform hcount] at h
    exact absurd rfl h

/-- A call for a local scope leaves the nearest table alone. -/
theorem values_evaluate_evaluate {width : WidthSetting} {name : String} {near : Scope}
    {outer : List Scope} (hform : findForm (near :: outer) name = some .evaluate)
    (arguments : List Term) (quit : Bool) :
    (evaluate width (.list (.identifier name :: arguments)) near outer quit).values
      = near.values := by
  cases arguments with
  | nil => rw [evaluate_evaluate_nil hform]
  | cons body pairs =>
    rw [evaluate_evaluate_cons hform]
    split
    · rfl
    · split <;> rfl

theorem changeCompletes (width : WidthSetting) (term : Term) : ChangeCompletes width term := by
  induction term using Term.induct with
  | nil | boolean | number | string | foreign | identifier =>
    intro near outer quit _ h
    rw [evaluate] at h
    exact absurd rfl h
  | list terms ih =>
    intro near outer quit hs h
    cases terms with
    | nil =>
      rw [evaluate] at h
      exact absurd rfl h
    | cons head arguments =>
      have hoperands : ∀ t ∈ arguments, ChangeCompletes width t :=
        fun t ht => ih t (List.mem_cons_of_mem _ ht)
      by_cases hname : ∃ name, head = .identifier name
      · obtain ⟨name, rfl⟩ := hname
        rcases lookup_standardForms name with ⟨rfl, hform⟩ | ⟨rfl, hform⟩ | ⟨rfl, hform⟩ |
          ⟨rfl, hform⟩ | ⟨rfl, hform⟩ | ⟨rfl, hform⟩ | ⟨-, hform⟩
        all_goals rw [← hs] at hform
        · exact completesLet_of_accumulate (by decide) hoperands hs (evaluate_add hform) h
        · exact completesLet_of_subtract hoperands hs h
        · exact completesLet_of_accumulate (by decide) hoperands hs (evaluate_multiply hform) h
        · exact completesLet_of_bind hs h
        · exact absurd (values_evaluate_evaluate hform arguments quit) h
        · cases arguments with
          | nil =>
            rw [evaluate_quit hform] at h
            exact absurd rfl h
          | cons first rest =>
            rw [evaluate_quit_cons hform] at h
            exact absurd rfl h
        · rw [evaluate_unbound hform] at h
          exact absurd rfl h
      · rw [evaluate_head fun name h => hname ⟨name, h⟩] at h
        exact absurd rfl h

theorem values_ne_iff_completesLet {width : WidthSetting} {term : Term} {near : Scope}
    {outer : List Scope} {quit : Bool} (hs : Standard (near :: outer)) :
    (evaluate width term near outer quit).values ≠ near.values ↔
      CompletesLet width outer near quit term := by
  constructor
  · exact changeCompletes width term near outer quit hs
  · intro h heq
    have hlength := h.length_lt hs
    rw [heq] at hlength
    exact Nat.lt_irrefl _ hlength

end ScopeLisp.Scopes

/-! ## Failed inputs -/

namespace ScopeLisp.Session

open Scopes

/-- A failed input leaves the functions of the global frame as they were, and it leaves its values
as they were exactly when no binding call of it was completed before it failed. -/
theorem failed_input_keeps_tables_iff (inputs : List Input) (width : WidthSetting)
    (source : String) {obstacle : Interpreter.Obstacle} {after : Machine}
    (hfail : Interpreter.eval width source (run inputs Interpreter.start)
      = .error obstacle after) :
    globalFunctions after = globalFunctions (run inputs Interpreter.start) ∧
    (globalValues after = globalValues (run inputs Interpreter.start) ↔
      ¬ ∃ term, Reader.parse width source = .ok term ∧
        CompletesLet width [] (globalScope (globalValues (run inputs Interpreter.start)))
          (run inputs Interpreter.start).quit term) := by
  have hrest := atRest_run atRest_start inputs
  generalize run inputs Interpreter.start = machine at *
  rcases eval_cases width source hrest with
    ⟨e, hparse, hrun⟩ | ⟨failure, final, hparse, hrun, -, harena⟩ |
      ⟨term, final, hparse, hrun, -, hframes⟩
  · -- a malformed setting stops the input before it is read
    have hafter : after = machine := congrArg ending (hfail.symm.trans hrun)
    rw [hafter]
    refine ⟨rfl, fun _ => ?_, fun _ => rfl⟩
    rintro ⟨term, hterm, -⟩
    cases hparse.symm.trans hterm
  · have hafter : after = final := congrArg ending (hfail.symm.trans hrun)
    have hframes : after.arena.frames = machine.arena.frames := by rw [hafter, harena]
    rw [globalFunctions_of_frames_eq (hframes.trans hrest.frames_eq),
      globalFunctions_of_frames_eq hrest.frames_eq,
      globalValues_of_frames_eq (hframes.trans hrest.frames_eq)]
    refine ⟨rfl, fun _ => ?_, fun _ => rfl⟩
    rintro ⟨term, hterm, -⟩
    cases hparse.symm.trans hterm
  · have hafter : after = final := by
      have hending := congrArg ending (hfail.symm.trans hrun)
      rwa [ending_inputResult] at hending
    rw [← hafter] at hframes
    have hchange : (globalOutcome width term machine).values ≠ globalValues machine ↔
        CompletesLet width [] (globalScope (globalValues machine)) machine.quit term :=
      values_ne_iff_completesLet (standard_globalScope _)
    rw [globalFunctions_of_frames_eq hframes, globalFunctions_of_frames_eq hrest.frames_eq,
      globalValues_of_frames_eq hframes]
    refine ⟨rfl, fun hkept => ?_, fun hnone => ?_⟩
    · rintro ⟨term', hterm, hlet⟩
      cases hparse.symm.trans hterm
      exact hchange.mpr hlet hkept
    · by_contra hchanged
      exact hnone ⟨term, hparse, hchange.mp hchanged⟩

/-- The sum `(+ (let b 2) c)`, which binds `b` before it fails. -/
def failingSum : Term :=
  .list [.identifier "+", .list [.identifier "let", .identifier "b", .number 2], .identifier "c"]

theorem written_failingSum :
    Grammar.Written ⟨8, by decide⟩ failingSum "(+ (let b 2) c)".toList := by
  have hspace : ∀ c ∈ [' '], Reader.isBlank c = true := List.all_eq_true.mp rfl
  have hlet : Grammar.Written ⟨8, by decide⟩
      (.list [.identifier "let", .identifier "b", .number 2]) "(let b 2)".toList := by
    refine .list (@Grammar.Elements.cons _ _ _ [] ['l', 'e', 't'] _ nofun
      (Grammar.written_name rfl (by decide) rfl (by decide)) rfl ?_)
    refine @Grammar.Elements.cons _ _ _ [' '] ['b'] _ hspace
      (Grammar.written_name rfl (by decide) rfl (by decide)) rfl ?_
    refine @Grammar.Elements.cons _ _ _ [' '] ['2'] _ hspace
      (.atom (.natural ⟨by decide, List.all_eq_true.mp rfl, rfl⟩ (by decide))) rfl ?_
    exact @Grammar.Elements.nil _ [] nofun
  refine .list (@Grammar.Elements.cons _ _ _ [] ['+'] _ nofun
    (Grammar.written_name rfl (by decide) rfl (by decide)) rfl ?_)
  refine @Grammar.Elements.cons _ _ _ [' '] "(let b 2)".toList _ hspace hlet trivial ?_
  refine @Grammar.Elements.cons _ _ _ [' '] ['c'] _ hspace
    (Grammar.written_name rfl (by decide) rfl (by decide)) rfl ?_
  exact @Grammar.Elements.nil _ [] nofun

/-- In a fresh session the sum fails, and `b` is bound afterwards. -/
theorem failed_sum_binds :
    ∃ obstacle after,
      Interpreter.eval (.ok ⟨8, by decide⟩) "(+ (let b 2) c)" (run [] Interpreter.start)
        = .error obstacle after ∧
      globalFunctions after = globalFunctions Interpreter.start ∧
      globalValues after ≠ globalValues Interpreter.start := by
  have hparse : Reader.parse (.ok ⟨8, by decide⟩) "(+ (let b 2) c)" = .ok failingSum :=
    written_failingSum.parse_eq
  have hfail : ∃ after,
      Interpreter.eval (.ok ⟨8, by decide⟩) "(+ (let b 2) c)" (run [] Interpreter.start)
        = .error (.fault (.language .operandNotANumber)) after := by
    simp only [Interpreter.eval, bind, EStateM.bind, Interpreter.read, hparse]
    exact ⟨_, rfl⟩
  obtain ⟨after, hfail⟩ := hfail
  obtain ⟨hfunctions, hvalues⟩ := failed_input_keeps_tables_iff [] _ _ hfail
  refine ⟨_, after, hfail, hfunctions, fun hkept => hvalues.mp hkept ⟨failingSum, hparse, ?_⟩⟩
  exact .first _ (by decide) (.bind _ (by decide))

end ScopeLisp.Session
