import Mathlib.Data.List.Basic
import ScopeLisp.Proofs.Refinement.Agreement

/-!
# The evaluator on the stack refines the evaluator on scopes

Every run of the evaluator on the stack agrees with the outcome on the scopes of the chain of its
context, whatever lies above the frame of the context in the stack. Nothing is assumed about the
rest of the stack: frames may hang below any others, and the context need not be the last one.

The parts of an evaluation come first: a step of arithmetic and the fold of operands
(`fold_agrees`), a single binding (`commit_agrees`), a local scope (`evaluateLocally_agrees`).
Each form of call puts them together, and `refines` is the induction over terms.

* `evaluate_refines_scopes`: the answer, the wish to quit and every frame of the stack after an
  evaluation are those that the scopes give.
-/

namespace ScopeLisp.Evaluation

open Scopes

variable {context : Context} {before : Machine} {frame : Frame} {outer : List Frame}

/-! ## Arithmetic -/

theorem combine_eq_calculate (width : WidthSetting) (op : Int → Int → Int) (lhs rhs : Term) :
    combine width op lhs rhs = (calculate width op lhs rhs).mapError Stop.fault := by
  by_cases hnumbers : ∃ a b, lhs = .number a ∧ rhs = .number b
  · obtain ⟨a, b, rfl, rfl⟩ := hnumbers
    unfold combine calculate
    cases width with
    | error e => rfl
    | ok width =>
      dsimp only
      by_cases h : width.low ≤ op a b ∧ op a b ≤ width.high
      · rw [if_pos (Width.holds_iff.mpr h), if_pos h]
        rfl
      · rw [if_neg (fun hh => h (Width.holds_iff.mp hh)), if_neg h]
        rfl
  · cases lhs <;> cases rhs <;> first | rfl | exact absurd ⟨_, _, rfl, rfl⟩ hnumbers

/-- The evaluation of a term on the stack has the outcome of its evaluation on scopes. -/
def Refines (width : WidthSetting) (term : Term) : Prop :=
  ∀ (context : Context) (before : Machine) (frame : Frame) (outer : List Frame),
    context.ShowsPlain before.arena frame outer →
    Agrees context before (evaluate width term context before)
      (Scopes.evaluate width term frame.scope (outer.map Frame.scope) before.quit)

theorem fold_agrees {width : WidthSetting} {terms : List Term}
    (ih : ∀ t ∈ terms, Refines width t) (op : Int → Int → Int) (value : Term)
    (hs : context.ShowsPlain before.arena frame outer) :
    Agrees context before
      (fold width op context ⟨value, []⟩ (operands width terms) before)
      (accumulate width terms op value frame.scope (outer.map Frame.scope) before.quit) := by
  induction terms generalizing value before frame with
  | nil =>
    rw [operands, fold, accumulate]
    exact Agrees.still hs.shows rfl
  | cons operand rest ihrest =>
    rw [operands, fold, accumulate]
    have hfirst := ih operand List.mem_cons_self context before frame outer hs
    refine Agrees.bind hfirst fun next after _ hquit hrebinds => ?_
    have hs' := hs.rebind hrebinds
    dsimp only
    rw [combine_eq_calculate]
    cases calculate width op value next with
    | error stop => exact ⟨after, rfl, hquit, .refl hs'.shows⟩
    | ok value =>
      have hrest := ihrest (fun t ht => ih t (List.mem_cons_of_mem _ ht)) value hs'
      rw [hquit] at hrest
      exact hrest

/-! ## Binding -/

theorem setValue_eq_extend {arena : Arena} (hs : context.Shows arena frame outer) (name : String)
    (value : Term) :
    context.setValue arena name value = (match extend frame.values (.identifier name) value with
      | .ok values => .ok { arena with
          frames := updateAt (fun frame => { frame with values }) arena.frames context.handle }
      | .error stop => .error stop.fault) := by
  rw [Context.setValue_eq]
  unfold extend
  rw [hs.frame_eq]
  dsimp only
  by_cases h : name ∈ frame.values.map Prod.fst
  · rw [if_pos (Table.binds_iff.mpr h), if_pos h]
    rfl
  · rw [if_neg (fun hb => h (Table.binds_iff.mp hb)), if_neg h]
    dsimp only
    congr 2
    exact updateAt_congr hs.frameAt?_eq rfl

/-- Binding a name in the frame of a context extends the table of the frame, or changes
nothing. -/
theorem change_setValue (hs : context.Shows before.arena frame outer) (name : String)
    (value : Term) :
    (∃ stop, extend frame.values (.identifier name) value = .error stop ∧
      Eval.change (fun arena => context.setValue arena name value) before
        = .error stop.fault before) ∨
    (∃ values after, extend frame.values (.identifier name) value = .ok values ∧
      Eval.change (fun arena => context.setValue arena name value) before = .ok () after ∧
      after.quit = before.quit ∧ Rebinds context values before.arena after.arena) := by
  unfold Eval.change
  dsimp only
  rw [setValue_eq_extend hs]
  cases extend frame.values (.identifier name) value with
  | error stop => exact .inl ⟨stop, rfl, rfl⟩
  | ok values => exact .inr ⟨values, _, rfl, rfl, rfl, rfl, Nat.le_refl _⟩

theorem check_setValue (hs : context.Shows before.arena frame outer) (name : String)
    (value : Term) :
    check context before.arena [] [.setValue name value]
      = ((extend frame.values (.identifier name) value).mapError Stop.fault).map fun _ => () := by
  unfold check extend
  rw [hs.frame_eq]
  dsimp only
  by_cases h : name ∈ frame.values.map Prod.fst
  · rw [if_pos (by rw [Table.binds_iff.mpr h]; rfl), if_pos h]
    rfl
  · have hb : ¬ (Table.binds frame.values name || [].contains name) = true := by
      rw [List.contains_nil, Bool.or_false]
      exact fun hb => h (Table.binds_iff.mp hb)
    rw [if_neg hb, if_neg h]
    rfl

/-- A single pending binding is committed as the scopes bind it. -/
theorem commit_agrees (hs : context.Shows before.arena frame outer) (name : String)
    (value : Term) :
    Agrees context before
      ((do commit context [.setValue name value]
           return ⟨value, []⟩ : Eval Yield) before)
      (match extend frame.values (.identifier name) value with
        | .ok values => ⟨.ok value, values, before.quit⟩
        | .error stop => ⟨.error stop, frame.values, before.quit⟩) := by
  have hcheck := check_setValue hs name value
  -- the commit is logged between the check and the change, which see the same arena
  let noted := before.note .debug .commit (commitNote context name value)
  have hnoted : context.Shows noted.arena frame outer := hs
  rcases change_setValue hnoted name value with
    ⟨stop, hextend, -⟩ | ⟨values, after, hextend, hchange, hquit, hrebinds⟩
  · rw [hextend] at hcheck ⊢
    have hrun : commit context [.setValue name value] before = .error stop.fault before := by
      refine bind_of_error ?_
      rw [Eval.change, hcheck]
      rfl
    rw [bind_of_error hrun]
    exact Agrees.still hs rfl
  · rw [hextend] at hcheck ⊢
    have hrun : commit context [.setValue name value] before = .ok () after := by
      have hchecked : Eval.change (fun arena =>
          (check context arena [] [.setValue name value]).map fun _ => arena) before
            = .ok () before := by
        rw [Eval.change, hcheck]
        rfl
      refine (bind_of_ok hchecked).trans ?_
      refine (bind_of_ok (note_run _ _ _ _)).trans ?_
      exact bind_of_ok hchange
    rw [bind_of_ok hrun]
    exact ⟨after, rfl, hquit, hrebinds⟩

/-! ## Local scopes -/

theorem nameOf_identifier (width : WidthSetting) (name : String) (machine : Machine) :
    nameOf ⟨.identifier name, evaluate width (.identifier name)⟩ machine = .ok name machine := rfl

theorem nameOf_of_not_identifier {operand : Operand} (h : ∀ name, operand.term ≠ .identifier name)
    (machine : Machine) : nameOf operand machine = .error (.language .notAName) machine := by
  obtain ⟨term, run⟩ := operand
  cases term with
  | identifier name => exact absurd rfl (h name)
  | _ => rfl

/-- Binding names to the terms beside them extends the table of a frame entry by entry. When it
stops early, the entries before the stop remain. -/
theorem bindLocals_run (width : WidthSetting) {before : Machine} {frame : Frame}
    (pairs : List Term) (heven : pairs.length % 2 = 0)
    (hs : context.Shows before.arena frame outer) :
    (∃ stop after values, extendAll frame.values pairs = .error stop ∧
      bindLocals context (operands width pairs) before = .error stop.fault after ∧
      after.quit = before.quit ∧ Rebinds context values before.arena after.arena) ∨
    (∃ values after, extendAll frame.values pairs = .ok values ∧
      bindLocals context (operands width pairs) before = .ok () after ∧
      after.quit = before.quit ∧ Rebinds context values before.arena after.arena) := by
  match pairs, heven with
  | [], _ => exact .inr ⟨frame.values, before, rfl, rfl, rfl, .refl hs⟩
  | name :: value :: rest, heven =>
    rw [operands, operands, bindLocals, extendAll]
    by_cases hname : ∃ text, name = .identifier text
    · obtain ⟨text, rfl⟩ := hname
      rw [bind_of_ok (nameOf_identifier width text before)]
      rcases change_setValue hs text value with
        ⟨stop, hextend, hchange⟩ | ⟨values, middle, hextend, hchange, hquit, hrebinds⟩
      · rw [hextend, bind_of_error hchange]
        exact .inl ⟨stop, before, frame.values, rfl, rfl, rfl, .refl hs⟩
      · rw [hextend, bind_of_ok hchange]
        have hrest : rest.length % 2 = 0 := by
          simp only [List.length_cons] at heven
          omega
        rcases bindLocals_run width rest hrest (hrebinds.shows hs) with
          ⟨stop, after, final, hall, hrun, hquit', hrebinds'⟩ |
            ⟨final, after, hall, hrun, hquit', hrebinds'⟩
        · exact .inl ⟨stop, after, final, hall, hrun, hquit'.trans hquit,
            hrebinds.trans hrebinds'⟩
        · exact .inr ⟨final, after, hall, hrun, hquit'.trans hquit, hrebinds.trans hrebinds'⟩
    · have hextend : extend frame.values name value = .error (.language .notAName) :=
        extend_of_not_identifier (fun text h => hname ⟨text, h⟩)
      have hrun : nameOf ⟨name, evaluate width name⟩ before
          = .error (.language .notAName) before :=
        nameOf_of_not_identifier (fun text h => hname ⟨text, h⟩) before
      rw [hextend, bind_of_error hrun]
      exact .inl ⟨_, before, frame.values, rfl, rfl, rfl, .refl hs⟩

/-- The machine with a new frame below a context. -/
def pushed (context : Context) (machine : Machine) : Machine :=
  { machine with arena := (machine.arena.push (some context.handle)).2 }

theorem openFrame_run (hs : context.Shows before.arena frame outer) :
    Eval.openFrame context before
      = .ok (before.arena.push (some context.handle)).1 (pushed context before) := by
  have hrange : 0 ≤ (context.handle : Int) ∧ (context.handle : Int) < before.arena.size := by
    have := hs.handle_lt
    omega
  rw [Eval.openFrame, Arena.allocate_of_range hrange]
  rfl

/-- Once the new frame is released, all is as before, whatever was bound in it. -/
theorem closeFrame_run {after : Machine} {values : Table Term}
    (hrebinds : Rebinds (before.arena.push (some context.handle)).1 values
      (pushed context before).arena after.arena) :
    ∃ final, Eval.closeFrame (before.arena.push (some context.handle)).1 after = .ok () final ∧
      final.quit = after.quit ∧ final.arena.frames = before.arena.frames ∧
      before.arena.nextGeneration ≤ final.arena.nextGeneration := by
  have hframes := hrebinds.frames_eq
  simp only [pushed, Arena.push, Arena.size, updateAt, if_true] at hframes
  have hrelease := Arena.release_top hframes
  have hnext := hrebinds.nextGeneration_le
  simp only [pushed, Arena.push] at hnext
  refine ⟨{ after with arena := { after.arena with frames := before.arena.frames } }, ?_, rfl, rfl,
    Nat.le_of_succ_le hnext⟩
  rw [Eval.closeFrame, Eval.change]
  dsimp only [Arena.push, Arena.size]
  rw [hrelease]

/-- A run in a new frame has the answer of the run, and leaves the frame of its context alone. -/
theorem inChild_agrees (hs : context.Shows before.arena frame outer)
    {body : Context → Eval Yield} (inner : Outcome)
    (h : Agrees (before.arena.push (some context.handle)).1 (pushed context before)
      (body (before.arena.push (some context.handle)).1 (pushed context before)) inner) :
    Agrees context before (Eval.inChild context body before)
      ⟨inner.answer, frame.values, inner.quit⟩ := by
  obtain ⟨after, hrun, hquit, hrebinds⟩ := h
  obtain ⟨final, hclose, hfinal, hframes, hnext⟩ := closeFrame_run hrebinds
  refine ⟨final, ?_, hfinal.trans hquit, ?_, hnext⟩
  · refine (bind_of_ok (openFrame_run hs)).trans ?_
    rw [hrun]
    unfold Outcome.result
    cases inner.answer with
    | ok value => simp only [hclose]
    | error stop => simp only [hclose]
  · rw [hframes]
    exact (updateAt_self hs.frameAt?_eq rfl).symm

theorem evaluateLocally_agrees {width : WidthSetting} {body : Term} (ih : Refines width body)
    (pairs : List Term) (hs : context.ShowsPlain before.arena frame outer) :
    Agrees context before (evaluateLocally context (operands width (body :: pairs)) before)
      (if pairs.length % 2 = 1 then
        ⟨.error (.language .unpairedBindings), frame.values, before.quit⟩
      else
        match extendAll [] pairs with
        | .ok locals =>
          let inner := Scopes.evaluate width body { values := locals }
            (frame.scope :: outer.map Frame.scope) before.quit
          ⟨inner.answer, frame.values, inner.quit⟩
        | .error stop => ⟨.error stop, frame.values, before.quit⟩) := by
  have hlength : (operands width (body :: pairs)).length = pairs.length + 1 := by
    rw [operands_eq_map, List.length_map, List.length_cons]
  unfold evaluateLocally
  rw [hlength]
  by_cases hodd : pairs.length % 2 = 1
  · rw [if_pos (by omega), if_pos hodd]
    exact Agrees.still hs.shows rfl
  · rw [if_neg (by omega), if_neg hodd, operands]
    have hinner : (before.arena.push (some context.handle)).1.ShowsPlain
      (pushed context before).arena _ _ := hs.push
    rcases bindLocals_run width pairs (by omega) hinner.shows with
      ⟨stop, after, values, hall, hrun, hquit, hrebinds⟩ |
        ⟨locals, after, hall, hrun, hquit, hrebinds⟩
    · have hall : extendAll [] pairs = .error stop := hall
      rw [hall]
      exact inChild_agrees hs.shows ⟨.error stop, values, before.quit⟩
        ⟨after, bind_of_error hrun, hquit, hrebinds⟩
    · have hall : extendAll [] pairs = .ok locals := hall
      rw [hall]
      have hbody := (ih _ after _ _ (hinner.rebind hrebinds)).settled
      rw [hquit] at hbody
      refine inChild_agrees hs.shows _ ?_
      rw [bind_of_ok hrun]
      exact hbody.after_rebinds hrebinds

/-! ## Calls -/

/-- A call looks its function up, notes the call, applies the function and commits. -/
theorem evaluate_call_run (hs : context.Shows before.arena frame outer) {width : WidthSetting}
    {name : String} {fn : Function}
    (hfind : ((frame :: outer).findSome? fun shown => shown.functions.lookup name) = some fn)
    (arguments : List Term) :
    ∃ noted : Machine, noted.arena = before.arena ∧ noted.quit = before.quit ∧
      evaluate width (.list (.identifier name :: arguments)) context before
        = settled context (apply width (.function fn) context (operands width arguments))
            noted := by
  have hlook : Eval.look (fun arena => context.findFunction arena name) before
      = .ok (some fn) before := by
    rw [Eval.look, Context.findFunction, hs.chain_eq, ← hfind]
    rfl
  refine ⟨before.note .debug .evaluator ("call " ++ name ++ " with " ++
    Text.decimal (operands width arguments).length ++ " argument(s) in frame " ++
    Text.decimal context.handle), rfl, rfl, ?_⟩
  rw [evaluate, call, bind_of_ok hlook]
  exact bind_of_ok (note_run _ _ _ _)

/-- A function without a body, or a call with a wrong count of arguments. -/
theorem settled_fail (hs : context.Shows before.arena frame outer) (error : EvalError) :
    Agrees context before (settled context (Eval.fail error) before)
      ⟨.error (.language error), frame.values, before.quit⟩ :=
  Agrees.still hs rfl

theorem length_operands (width : WidthSetting) (terms : List Term) :
    (operands width terms).length = terms.length := by
  rw [operands_eq_map, List.length_map]

theorem subtract_agrees {width : WidthSetting} {arguments : List Term}
    (ih : ∀ t ∈ arguments, Refines width t) (hs : context.ShowsPlain before.arena frame outer)
    {name : String}
    (hform : findForm (frame.scope :: outer.map Frame.scope) name = some .subtract) :
    Agrees context before
      (settled context (apply width (.function (.builtin ⟨.atLeastOne, "-", .subtract⟩)) context
        (operands width arguments)) before)
      (Scopes.evaluate width (.list (.identifier name :: arguments)) frame.scope
        (outer.map Frame.scope) before.quit) := by
  cases arguments with
  | nil =>
    rw [evaluate_subtract_nil hform]
    exact settled_fail hs.shows _
  | cons first rest =>
    rw [evaluate_subtract_cons hform]
    have hfirst := ih first List.mem_cons_self context before frame outer hs
    refine Agrees.settled (Agrees.bind hfirst fun value after _ hquit hrebinds => ?_)
    rw [← hquit]
    exact fold_agrees (fun t ht => ih t (List.mem_cons_of_mem _ ht)) _ value (hs.rebind hrebinds)

theorem bind_agrees {width : WidthSetting} (arguments : List Term)
    (hs : context.ShowsPlain before.arena frame outer) {name : String}
    (hform : findForm (frame.scope :: outer.map Frame.scope) name = some .bind) :
    Agrees context before
      (settled context (apply width (.function (.builtin ⟨.exactly 2, "let", .bind⟩)) context
        (operands width arguments)) before)
      (Scopes.evaluate width (.list (.identifier name :: arguments)) frame.scope
        (outer.map Frame.scope) before.quit) := by
  by_cases hcount : arguments.length = 2
  · obtain ⟨bound, value, rfl⟩ := List.length_eq_two.mp hcount
    rw [evaluate_bind hform]
    by_cases hname : ∃ text, bound = .identifier text
    · obtain ⟨text, rfl⟩ := hname
      exact commit_agrees hs.shows text value
    · have hextend : extend frame.scope.values bound value = .error (.language .notAName) :=
        extend_of_not_identifier (fun text h => hname ⟨text, h⟩)
      have hrun : nameOf ⟨bound, evaluate width bound⟩ before
          = .error (.language .notAName) before :=
        nameOf_of_not_identifier (fun text h => hname ⟨text, h⟩) before
      rw [hextend]
      exact Agrees.still hs.shows (bind_of_error (bind_of_error hrun))
  · rw [evaluate_bind_miscount hform hcount]
    have hrefused : ¬ (Arity.exactly 2).accepts (operands width arguments).length = true := by
      rw [Arity.accepts_exactly_iff, length_operands]
      exact fun h => hcount h.symm
    rw [apply, if_neg hrefused, length_operands, wrongCount_eq (Arity.isWritable_exactly (by decide))]
    exact settled_fail hs.shows _

theorem evaluate_agrees {width : WidthSetting} {arguments : List Term}
    (ih : ∀ t ∈ arguments, Refines width t) (hs : context.ShowsPlain before.arena frame outer)
    {name : String}
    (hform : findForm (frame.scope :: outer.map Frame.scope) name = some .evaluate) :
    Agrees context before
      (settled context (apply width (.function (.builtin ⟨.atLeastOne, "eval", .evaluate⟩)) context
        (operands width arguments)) before)
      (Scopes.evaluate width (.list (.identifier name :: arguments)) frame.scope
        (outer.map Frame.scope) before.quit) := by
  cases arguments with
  | nil =>
    rw [evaluate_evaluate_nil hform]
    exact settled_fail hs.shows _
  | cons body pairs =>
    rw [evaluate_evaluate_cons hform]
    exact (evaluateLocally_agrees (ih body List.mem_cons_self) pairs hs).settled

theorem quit_agrees {width : WidthSetting} (arguments : List Term)
    (hs : context.ShowsPlain before.arena frame outer) {name : String}
    (hform : findForm (frame.scope :: outer.map Frame.scope) name = some .quit) :
    Agrees context before
      (settled context (apply width (.function (.builtin ⟨.exactly 0, "quit", .quit⟩)) context
        (operands width arguments)) before)
      (Scopes.evaluate width (.list (.identifier name :: arguments)) frame.scope
        (outer.map Frame.scope) before.quit) := by
  cases arguments with
  | nil =>
    rw [evaluate_quit hform]
    exact ⟨{ before with quit := true }, rfl, rfl, .refl hs.shows⟩
  | cons first rest =>
    rw [evaluate_quit_cons hform]
    have hrefused : ¬ (Arity.exactly 0).accepts (operands width (first :: rest)).length = true := by
      rw [Arity.accepts_exactly_iff, length_operands, List.length_cons]
      omega
    rw [apply, if_neg hrefused, length_operands, wrongCount_eq (Arity.isWritable_exactly (by decide))]
    exact settled_fail hs.shows _

/-- The application of a function does what its form says. -/
theorem apply_agrees {width : WidthSetting} {fn : Function} (hplain : fn.IsPlain)
    {arguments : List Term} (ih : ∀ t ∈ arguments, Refines width t)
    (hs : context.ShowsPlain before.arena frame outer) {name : String}
    (hform : findForm (frame.scope :: outer.map Frame.scope) name = some fn.form) :
    Agrees context before
      (settled context (apply width (.function fn) context (operands width arguments)) before)
      (Scopes.evaluate width (.list (.identifier name :: arguments)) frame.scope
        (outer.map Frame.scope) before.quit) := by
  rcases hplain with hstandard | ⟨given, rfl⟩
  · simp only [standardFunctions, List.map_cons, List.map_nil, List.mem_cons, List.not_mem_nil,
      or_false] at hstandard
    rcases hstandard with rfl | rfl | rfl | rfl | rfl | rfl
    · rw [evaluate_add hform]
      exact (fold_agrees ih _ _ hs).settled
    · exact subtract_agrees ih hs hform
    · rw [evaluate_multiply hform]
      exact (fold_agrees ih _ _ hs).settled
    · exact bind_agrees arguments hs hform
    · exact evaluate_agrees ih hs hform
    · exact quit_agrees arguments hs hform
  · rw [evaluate_undefined hform]
    exact settled_fail hs.shows _

/-! ## Terms -/

theorem call_agrees {width : WidthSetting} (name : String) {arguments : List Term}
    (ih : ∀ t ∈ arguments, Refines width t) (hs : context.ShowsPlain before.arena frame outer) :
    Agrees context before (evaluate width (.list (.identifier name :: arguments)) context before)
      (Scopes.evaluate width (.list (.identifier name :: arguments)) frame.scope
        (outer.map Frame.scope) before.quit) := by
  have hform := findForm_scopes (frame :: outer) name
  cases hfind : (frame :: outer).findSome? fun shown => shown.functions.lookup name with
  | none =>
    rw [hfind] at hform
    rw [evaluate_unbound hform]
    have hlook : Eval.look (fun arena => context.findFunction arena name) before
        = .ok none before := by
      rw [Eval.look, Context.findFunction, hs.shows.chain_eq, ← hfind]
      rfl
    rw [evaluate, call, bind_of_ok hlook]
    exact Agrees.still hs.shows rfl
  | some fn =>
    rw [hfind] at hform
    obtain ⟨noted, harena, hquit, hrun⟩ := evaluate_call_run hs.shows hfind arguments
    have hnoted : context.ShowsPlain noted.arena frame outer := harena ▸ hs
    have happly := apply_agrees (isPlain_of_find hs.plain hfind) ih hnoted hform
    rw [hquit, ← hrun] at happly
    have hsame : Rebinds context frame.values before.arena noted.arena :=
      harena.symm ▸ .refl hs.shows
    exact happly.after_rebinds hsame

theorem evaluateName_run (hs : context.Shows before.arena frame outer) (name : String) :
    evaluateName name context before
      = .ok ⟨(Scopes.findValue ((frame :: outer).map Frame.scope) name).getD (.identifier name), []⟩
          before := by
  have hlook : Eval.look (fun arena => context.findValue arena name) before
      = .ok (Scopes.findValue ((frame :: outer).map Frame.scope) name) before := by
    rw [Eval.look, Context.findValue, hs.chain_eq, findValue_scopes]
    rfl
  rw [evaluateName, bind_of_ok hlook]
  cases Scopes.findValue ((frame :: outer).map Frame.scope) name <;> rfl

theorem call_of_not_identifier (width : WidthSetting) {head : Term}
    (h : ∀ name, head ≠ .identifier name) (operands : List Operand) :
    call width head operands context = Eval.fail .headNotAName := by
  cases head with
  | identifier name => exact absurd rfl (h name)
  | _ => rfl

/-- Every term: by induction, over the call of every form. -/
theorem refines (width : WidthSetting) (term : Term) : Refines width term := by
  induction term using Term.induct with
  | nil | boolean | number | string | foreign =>
    intro context before frame outer hs
    rw [evaluate, Scopes.evaluate]
    exact Agrees.still hs.shows rfl
  | identifier name =>
    intro context before frame outer hs
    rw [evaluate, Scopes.evaluate, evaluateName_run hs.shows]
    exact Agrees.still hs.shows rfl
  | list terms ih =>
    intro context before frame outer hs
    cases terms with
    | nil =>
      rw [evaluate, Scopes.evaluate]
      exact Agrees.still hs.shows rfl
    | cons head arguments =>
      by_cases hname : ∃ name, head = .identifier name
      · obtain ⟨name, rfl⟩ := hname
        exact call_agrees name (fun t ht => ih t (List.mem_cons_of_mem _ ht)) hs
      · have hhead : ∀ name, head ≠ .identifier name := fun name h => hname ⟨name, h⟩
        rw [evaluate_head hhead, evaluate, call_of_not_identifier width hhead]
        exact Agrees.still hs.shows rfl

/-- Evaluation in a live context has the answer and the wish to quit that the scopes of its chain
give. Afterwards, whether there was an answer or not, the stack has as many frames as before, and
each of them is as before, but for the values that the frame of the context binds. -/
theorem evaluate_refines_scopes (width : WidthSetting) (term : Term) (context : Context)
    (machine : Machine) {frame : Frame} {outer : List Frame}
    (hlive : context.chain machine.arena = .ok (frame :: outer))
    (hplain : ∀ shown ∈ frame :: outer, shown.IsPlain) :
    let outcome :=
      Scopes.evaluate width term frame.scope (outer.map Frame.scope) machine.quit
    ∃ after : Machine,
      evaluate width term context machine = outcome.result after ∧
      after.quit = outcome.quit ∧
      after.arena.size = machine.arena.size ∧
      ∀ handle, frameAt? after.arena.frames handle
        = (frameAt? machine.arena.frames handle).map fun shown =>
            if handle = context.handle then { shown with values := outcome.values } else shown := by
  intro outcome
  obtain ⟨_, _, hframes, hs⟩ := Context.chain_eq_ok_iff.mp hlive
  obtain ⟨rfl, rfl⟩ := List.cons.inj hframes
  obtain ⟨after, hrun, hquit, hrebinds⟩ :=
    refines width term context machine frame outer ⟨hs, hplain⟩
  refine ⟨after, hrun, hquit, hrebinds.size_eq, fun handle => ?_⟩
  rw [hrebinds.frames_eq, frameAt?_updateAt]

/-- A context in the middle of a stack: a call binds a name in its frame, and the frame above it,
which binds the same names, plays no part. -/
theorem evaluate_refines_scopes_middle :
    let root : Frame :=
      { functions := ("f", .userDefined none) :: standardFunctions, parent := none,
        generation := 1 }
    let middle : Frame :=
      { values := [("x", .number 2)], parent := some 0, generation := 2 }
    let top : Frame :=
      { values := [("x", .number 9), ("y", .number 9)], parent := some 1, generation := 3 }
    let machine : Machine := { arena := { frames := [top, middle, root], nextGeneration := 4 } }
    let context : Context := ⟨1, 2⟩
    let term : Term := .list [.identifier "+", .identifier "x",
      .list [.identifier "let", .identifier "y", .number 3],
      .list [.identifier "eval", .identifier "z", .identifier "z", .number 4]]
    context.chain machine.arena = .ok [middle, root] ∧
    (∀ shown ∈ [middle, root], shown.IsPlain) ∧
    ∃ after : Machine,
      evaluate (.ok ⟨8, by decide⟩) term context machine = .ok ⟨.number 9, []⟩ after ∧
      after.arena.size = 3 ∧ frameAt? after.arena.frames 2 = some top ∧
      frameAt? after.arena.frames 1
        = some { middle with values := [("x", .number 2), ("y", .number 3)] } := by
  intro root middle top machine context term
  have hlive : context.chain machine.arena = .ok [middle, root] := rfl
  have hplain : ∀ shown ∈ [middle, root], shown.IsPlain := by decide
  obtain ⟨after, hrun, -, hsize, hframes⟩ :=
    evaluate_refines_scopes (.ok ⟨8, by decide⟩) term context machine hlive hplain
  exact ⟨hlive, hplain, after, hrun, hsize, hframes 2, hframes 1⟩

end ScopeLisp.Evaluation
