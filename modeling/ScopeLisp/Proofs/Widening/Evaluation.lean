import ScopeLisp.Proofs.Compositional
import ScopeLisp.Proofs.Grammar.RoundTrip
import ScopeLisp.Proofs.Session
import ScopeLisp.Proofs.Widening.Reading

/-!
# Sessions under a wider width

Two runs are compared, one under a narrow width and one under a wider width. They go step by step
through the same machines until, under the narrow width, a number does not fit. That stops the
evaluation with an overflow, and no part of the evaluator goes on from an error. Frames of local
scopes are released on the way out, which does not change the error as long as the frame to be
released is the last one; so it has to be known as well that a computation leaves as many frames as
it found (`Eval.Balanced`).

* `Eval.Widens`: one computation is the other, unless that one overflows. It is passed on by
  sequences (`Eval.Widens.bind`) and by local scopes (`Eval.Widens.inChild`).
* `Evaluation.evaluate_widens`: evaluation under the two widths, by induction over terms.
* `Session.widening_keeps_session`: a session without overflow is the same under a wider width.
-/

namespace ScopeLisp

open Session (ending)

namespace Eval

variable {α β : Type}

/-! ## Computations that leave as many frames as they find -/

/-- The computation leaves as many frames as it found, whether it succeeds or fails. -/
def Balanced (x : Eval α) : Prop :=
  ∀ machine, (ending (x machine)).arena.size = machine.arena.size

namespace Balanced

theorem pure (a : α) : Balanced (Pure.pure a) := fun _ => rfl

theorem throw (fault : Fault) : Balanced (MonadExcept.throw fault : Eval α) := fun _ => rfl

theorem bind {x : Eval α} {f : α → Eval β} (hx : Balanced x) (hf : ∀ a, Balanced (f a)) :
    Balanced (x >>= f) := by
  intro machine
  have hfirst := hx machine
  cases hrun : x machine with
  | ok a after =>
    rw [hrun] at hfirst
    rw [Evaluation.bind_of_ok hrun]
    exact (hf a after).trans hfirst
  | error fault after =>
    rw [hrun] at hfirst
    rw [Evaluation.bind_of_error hrun]
    exact hfirst

theorem look (query : Arena → Except Misuse α) : Balanced (Eval.look query) := by
  intro machine
  unfold Eval.look
  cases query machine.arena <;> rfl

theorem note (level : Log.Level) (origin : Log.Origin) (message : Option String) :
    Balanced (Eval.note level origin message) := fun _ => rfl

theorem change {update : Arena → Except Fault Arena}
    (h : ∀ arena after, update arena = .ok after → after.size = arena.size) :
    Balanced (Eval.change update) := by
  intro machine
  unfold Eval.change
  cases hupdate : update machine.arena with
  | ok after => exact h _ _ hupdate
  | error fault => rfl

theorem setValue (context : Context) (name : String) (value : Term) :
    Balanced (Eval.change fun arena => context.setValue arena name value) := by
  refine change fun arena after hset => ?_
  obtain ⟨_, hput⟩ := settle_eq_ok_iff.mp hset
  rw [Context.bindIn_ok hput]
  exact length_updateAt ..

end Balanced

/-! ## Computations that differ by an overflow -/

/-- The second computation is the first one, unless the first one overflows. -/
structure Widens (narrow wide : Eval α) : Prop where
  balanced : Balanced narrow
  same : ∀ machine, (∃ after, narrow machine = .error (.language .overflow) after) ∨
    wide machine = narrow machine

namespace Widens

theorem refl {x : Eval α} (h : Balanced x) : Widens x x := ⟨h, fun _ => .inr rfl⟩

theorem bind {x y : Eval α} {f g : α → Eval β} (hxy : Widens x y)
    (hfg : ∀ a, Widens (f a) (g a)) : Widens (x >>= f) (y >>= g) where
  balanced := hxy.balanced.bind fun a => (hfg a).balanced
  same := by
    intro machine
    rcases hxy.same machine with ⟨after, hoverflow⟩ | hsame
    · exact .inl ⟨after, Evaluation.bind_of_error hoverflow⟩
    · cases hrun : x machine with
      | ok a after =>
        rw [Evaluation.bind_of_ok hrun, Evaluation.bind_of_ok (hsame.trans hrun)]
        exact (hfg a).same after
      | error fault after =>
        rw [Evaluation.bind_of_error hrun, Evaluation.bind_of_error (hsame.trans hrun)]
        exact .inr rfl

end Widens

/-- The last frame can be released, and then there is one frame less. -/
theorem closeFrame_last {context : Context} {machine : Machine}
    (h : machine.arena.size = context.handle + 1) :
    ∃ after, closeFrame context machine = .ok () after ∧ after.arena.size = context.handle := by
  obtain ⟨top, below, hframes⟩ := List.exists_cons_of_length_eq_add_one h
  have hhandle : context.handle = below.length := by
    rw [Arena.size, hframes, List.length_cons] at h
    omega
  refine ⟨{ machine with arena := { machine.arena with frames := below } }, ?_, hhandle.symm⟩
  rw [closeFrame, change, hhandle, Arena.release_top hframes]

/-- A new frame, if there can be one, is the last one. -/
theorem openFrame_cases (context : Context) (machine : Machine) :
    (∃ fault, openFrame context machine = .error fault machine) ∨
    ∃ inner after, openFrame context machine = .ok inner after ∧
      inner.handle = machine.arena.size ∧ after.arena.size = machine.arena.size + 1 := by
  unfold openFrame
  cases hallocate : machine.arena.allocate (some context.handle) with
  | ok result =>
    obtain ⟨inner, arena⟩ := result
    obtain ⟨below, -, -, hpush⟩ := Arena.exists_of_allocate hallocate
    cases hpush
    exact .inr ⟨_, _, rfl, rfl, rfl⟩
  | error e => exact .inl ⟨_, rfl⟩

/-- A local scope ends as its body does, but for the release of its frame. -/
theorem inChild_run {context inner : Context} {body : Context → Eval α} {machine opened : Machine}
    (hopen : openFrame context machine = .ok inner opened)
    (hhandle : inner.handle = machine.arena.size)
    (hsize : opened.arena.size = machine.arena.size + 1) (hbody : Balanced (body inner)) :
    ∃ closed : Machine, closed.arena.size = machine.arena.size ∧
      inChild context body machine = (match body inner opened with
        | .ok a _ => .ok a closed
        | .error fault _ => .error fault closed) := by
  have hrun : inChild context body machine = _ := Evaluation.bind_of_ok hopen
  have hlast := (hbody opened).trans (hsize.trans (congrArg (· + 1) hhandle.symm))
  obtain ⟨closed, hclose, hclosed⟩ := closeFrame_last hlast
  refine ⟨closed, hclosed.trans hhandle, ?_⟩
  rw [hrun]
  cases hresult : body inner opened with
  | ok a after =>
    rw [hresult, ending] at hclose
    simp only [hclose]
  | error fault after =>
    rw [hresult, ending] at hclose
    simp only [hclose]

theorem Balanced.inChild (context : Context) {body : Context → Eval α}
    (h : ∀ inner, Balanced (body inner)) : Balanced (Eval.inChild context body) := by
  intro machine
  rcases openFrame_cases context machine with ⟨fault, hopen⟩ |
    ⟨inner, opened, hopen, hhandle, hsize⟩
  · have hrun : Eval.inChild context body machine = _ := Evaluation.bind_of_error hopen
    rw [hrun]
    rfl
  · obtain ⟨closed, hclosed, hrun⟩ := inChild_run hopen hhandle hsize (h inner)
    rw [hrun]
    cases body inner opened <;> exact hclosed

theorem Widens.inChild (context : Context) {f g : Context → Eval α}
    (h : ∀ inner, Widens (f inner) (g inner)) :
    Widens (Eval.inChild context f) (Eval.inChild context g) where
  balanced := .inChild context fun inner => (h inner).balanced
  same := by
    intro machine
    rcases openFrame_cases context machine with ⟨fault, hopen⟩ |
      ⟨inner, opened, hopen, hhandle, hsize⟩
    · exact .inr ((Evaluation.bind_of_error hopen).trans (Evaluation.bind_of_error hopen).symm)
    · rcases (h inner).same opened with ⟨after, hoverflow⟩ | hsame
      · -- the frame is released after the overflow, which is still what the scope ends with
        obtain ⟨closed, -, hrun⟩ := inChild_run hopen hhandle hsize (h inner).balanced
        rw [hoverflow] at hrun
        exact .inl ⟨closed, hrun⟩
      · refine .inr ((Evaluation.bind_of_ok hopen).trans (.trans ?_
          (Evaluation.bind_of_ok hopen).symm))
        rw [hsame]

end Eval

namespace Evaluation

open Eval

/-! ## Parts of an evaluation -/

theorem compositional_balanced : Compositional @Balanced where
  pure := .pure
  throw := .throw
  bind := .bind
  look := .look
  note := .note
  quit _ := rfl
  check _ := .change fun _ _ hchecked => by rw [eq_of_checked hchecked]
  setValue := .setValue
  inChild := .inChild

/-- Committing what a computation asks for is the same step under both widths. -/
theorem widens_settled {context : Context} {x y : Eval Yield} (h : Widens x y) :
    Widens (settled context x) (settled context y) :=
  h.bind fun result =>
    .refl ((compositional_balanced.commit context result.actions).bind fun _ => .pure _)

/-! ## Operands -/

/-- Arguments as written, each with the evaluation that is given for it. -/
def operandsBy (run : Term → Context → Eval Yield) (terms : List Term) : List Operand :=
  terms.map fun t => ⟨t, run t⟩

section Operands

variable {f g : Term → Context → Eval Yield}

theorem length_operandsBy (f : Term → Context → Eval Yield) (terms : List Term) :
    (operandsBy f terms).length = terms.length :=
  List.length_map ..

theorem map_term_operandsBy (f : Term → Context → Eval Yield) (terms : List Term) :
    (operandsBy f terms).map Operand.term = terms := by
  rw [operandsBy, List.map_map]
  exact List.map_id terms

/-! Names are read off the arguments as written, so how an argument is evaluated does not
matter to the bodies that only bind. -/

theorem widens_bindLocals (f g : Term → Context → Eval Yield) (context : Context)
    (pairs : List Term) :
    Widens (bindLocals context (operandsBy f pairs)) (bindLocals context (operandsBy g pairs)) := by
  match pairs with
  | [] => exact .refl (.pure ())
  | [name] => exact .refl ((compositional_balanced.nameOf ⟨name, f name⟩).bind fun _ => .throw _)
  | name :: value :: rest =>
    refine Widens.bind (.refl (compositional_balanced.nameOf ⟨name, f name⟩)) fun text => ?_
    refine Widens.bind (.refl (.setValue context text value)) fun _ => ?_
    exact widens_bindLocals f g context rest

theorem widens_pairActions (f g : Term → Context → Eval Yield) (pairs : List Term) :
    Widens (pairActions (operandsBy f pairs)) (pairActions (operandsBy g pairs)) := by
  match pairs with
  | [] => exact .refl (.pure [])
  | [name] => exact .refl ((compositional_balanced.nameOf ⟨name, f name⟩).bind fun _ => .throw _)
  | name :: value :: rest =>
    refine Widens.bind (.refl (compositional_balanced.nameOf ⟨name, f name⟩)) fun text => ?_
    exact (widens_pairActions f g rest).bind fun _ => .refl (.pure _)

theorem widens_bind (narrow wide : WidthSetting) (f g : Term → Context → Eval Yield)
    (context : Context) (terms : List Term) :
    Widens (runPrimitive narrow context (operandsBy f terms) .bind)
      (runPrimitive wide context (operandsBy g terms) .bind) := by
  match terms with
  | [] => exact .refl (.throw _)
  | [name] => exact .refl ((compositional_balanced.nameOf ⟨name, f name⟩).bind fun _ => .throw _)
  | name :: value :: rest =>
    exact .refl ((compositional_balanced.nameOf ⟨name, f name⟩).bind fun _ => .pure _)

variable {terms : List Term} (ih : ∀ t ∈ terms, ∀ context, Widens (f t context) (g t context))

include ih

theorem widens_evaluateEach (context : Context) :
    Widens (evaluateEach context (operandsBy f terms))
      (evaluateEach context (operandsBy g terms)) := by
  induction terms with
  | nil => exact .refl (.pure _)
  | cons operand rest ihrest =>
    refine (ih operand List.mem_cons_self context).bind fun first => ?_
    exact (ihrest fun t ht => ih t (List.mem_cons_of_mem _ ht)).bind fun _ => .refl (.pure _)

theorem widens_evaluateLocally (context : Context) :
    Widens (evaluateLocally context (operandsBy f terms))
      (evaluateLocally context (operandsBy g terms)) := by
  unfold evaluateLocally
  rw [length_operandsBy, length_operandsBy]
  split
  · exact .refl (.throw _)
  · cases terms with
    | nil => exact .refl (.throw _)
    | cons body pairs =>
      refine Widens.inChild context fun inner => ?_
      refine (widens_bindLocals f g inner pairs).bind fun _ => ?_
      exact widens_settled (ih body List.mem_cons_self inner)

end Operands

/-! ## Evaluation -/

section Widths

variable {narrow wide : Width} (hle : narrow.bits ≤ wide.bits)

include hle

theorem widens_combine (op : Int → Int → Int) (lhs rhs : Term) :
    Widens (Eval.ofExcept (combine (.ok narrow) op lhs rhs))
      (Eval.ofExcept (combine (.ok wide) op lhs rhs)) := by
  refine ⟨compositional_balanced.ofExcept _, fun machine => ?_⟩
  unfold combine
  split
  · rename_i a b
    dsimp only
    by_cases hholds : narrow.holds (op a b) = true
    · rw [if_pos hholds, if_pos (Width.holds_mono hle hholds)]
      exact .inr rfl
    · rw [if_neg hholds]
      exact .inl ⟨machine, rfl⟩
  · exact .inr rfl

section Calls

variable {f g : Term → Context → Eval Yield} {terms : List Term}
  (ih : ∀ t ∈ terms, ∀ context, Widens (f t context) (g t context))

include ih

theorem widens_fold (op : Int → Int → Int) (context : Context) (soFar : Yield) :
    Widens (fold (.ok narrow) op context soFar (operandsBy f terms))
      (fold (.ok wide) op context soFar (operandsBy g terms)) := by
  induction terms generalizing soFar with
  | nil => exact .refl (.pure soFar)
  | cons operand rest ihrest =>
    refine (ih operand List.mem_cons_self context).bind fun next => ?_
    refine (widens_combine hle op soFar.term next.term).bind fun term => ?_
    exact ihrest (fun t ht => ih t (List.mem_cons_of_mem _ ht)) _

theorem widens_subtract (context : Context) :
    Widens (runPrimitive (.ok narrow) context (operandsBy f terms) .subtract)
      (runPrimitive (.ok wide) context (operandsBy g terms) .subtract) := by
  cases terms with
  | nil => exact .refl (.throw _)
  | cons first rest =>
    refine (ih first List.mem_cons_self context).bind fun value => ?_
    exact widens_fold hle (fun t ht => ih t (List.mem_cons_of_mem _ ht)) _ context value

theorem widens_runPrimitive (context : Context) (body : Primitive) :
    Widens (runPrimitive (.ok narrow) context (operandsBy f terms) body)
      (runPrimitive (.ok wide) context (operandsBy g terms) body) := by
  cases body with
  | add => exact widens_fold hle ih _ context _
  | multiply => exact widens_fold hle ih _ context _
  | subtract => exact widens_subtract hle ih context
  | bind => exact widens_bind _ _ f g context terms
  | evaluate => exact widens_evaluateLocally ih context
  | quit => exact .refl fun _ => rfl
  | collect =>
    rw [runPrimitive, runPrimitive, map_term_operandsBy, map_term_operandsBy]
    exact .refl (.pure _)
  | bindAll => exact (widens_pairActions f g terms).bind fun _ => .refl (.pure _)
  | sequence => exact (widens_evaluateEach ih context).bind fun _ => .refl (.pure _)

theorem widens_apply (callee : Callee) (context : Context) :
    Widens (apply (.ok narrow) callee context (operandsBy f terms))
      (apply (.ok wide) callee context (operandsBy g terms)) := by
  unfold apply
  rw [length_operandsBy, length_operandsBy]
  split
  · split
    · exact widens_runPrimitive hle ih context _
    · exact .refl (.throw _)
  · exact .refl (.throw _)
  · exact .refl (.throw _)

theorem widens_call (head : Term) (context : Context) :
    Widens (call (.ok narrow) head (operandsBy f terms) context)
      (call (.ok wide) head (operandsBy g terms) context) := by
  unfold call
  rw [length_operandsBy, length_operandsBy]
  split
  · rename_i name
    refine (Widens.refl (.look _)).bind fun found => ?_
    cases found with
    | none => exact .refl (.throw _)
    | some fn =>
      refine (Widens.refl (.note _ _ _)).bind fun _ => ?_
      exact widens_settled (widens_apply hle ih (.function fn) context)
  · exact .refl (.throw _)

end Calls

/-- A term is evaluated alike under a wider width, in every context, unless it overflows under the
narrow one. -/
theorem evaluate_widens (term : Term) (context : Context) :
    Widens (evaluate (.ok narrow) term context) (evaluate (.ok wide) term context) := by
  induction term using Term.induct generalizing context with
  | nil | boolean | number | string =>
    rw [evaluate, evaluate]
    exact .refl (.pure _)
  | foreign value =>
    rw [evaluate, evaluate]
    exact .refl (.throw _)
  | identifier name =>
    rw [evaluate, evaluate]
    exact .refl (compositional_balanced.evaluateName name context)
  | list terms ih =>
    cases terms with
    | nil =>
      rw [evaluate, evaluate]
      exact .refl (.pure _)
    | cons head arguments =>
      rw [evaluate_list_cons, evaluate_list_cons]
      exact widens_call hle (fun t ht => ih t (List.mem_cons_of_mem _ ht)) head context

end Widths

end Evaluation

/-! ## Sessions -/

/-- Whether an input is refused because a number does not fit the width: one that is read, or one
that is computed. -/
def Interpreter.Obstacle.isOverflow : Interpreter.Obstacle → Bool
  | .unreadable failure => failure.cause = .numberOutOfRange
  | .fault stop => stop = .language .overflow

namespace Session

open Interpreter

/-- The answers to inputs that are evaluated one after the other under one width. -/
def answers (width : Width) : (sources : List String) → Machine → List (Except Obstacle Term)
  | [], _ => []
  | source :: rest, machine =>
    answer (Interpreter.eval (.ok width) source machine) ::
      answers width rest (ending (Interpreter.eval (.ok width) source machine))

/-- An input comes to the same under a wider width, in every machine, unless it overflows under
the narrow one. -/
theorem eval_widened {narrow wide : Width} (hle : narrow.bits ≤ wide.bits) (source : String)
    (machine : Machine) :
    (∃ obstacle, answer (Interpreter.eval (.ok narrow) source machine) = .error obstacle ∧
      obstacle.isOverflow = true) ∨
    Interpreter.eval (.ok wide) source machine = Interpreter.eval (.ok narrow) source machine := by
  simp only [Interpreter.eval, bind, EStateM.bind, Interpreter.read]
  rcases Reader.parse_widened hle source with ⟨failure, hfail, hcause⟩ | hsame
  · refine .inl ⟨.unreadable failure, ?_, decide_eq_true hcause⟩
    rw [hfail]
    rfl
  · rw [hsame]
    cases Reader.parse (.ok narrow) source with
    | error e => cases e <;> exact .inr rfl
    | ok term =>
      dsimp only [Interpreter.evaluate]
      rcases (Evaluation.evaluate_widens hle term globalContext).same machine with
        ⟨after, hoverflow⟩ | hsame
      · rw [hoverflow]
        exact .inl ⟨.fault (.language .overflow), rfl, rfl⟩
      · rw [hsame]
        exact .inr rfl

theorem answers_widened {narrow wide : Width} (hle : narrow.bits ≤ wide.bits)
    (sources : List String) (machine : Machine)
    (h : ∀ obstacle, .error obstacle ∈ answers narrow sources machine →
      obstacle.isOverflow = false) :
    answers wide sources machine = answers narrow sources machine ∧
    run (sources.map (.eval (.ok wide))) machine
      = run (sources.map (.eval (.ok narrow))) machine := by
  induction sources generalizing machine with
  | nil => exact ⟨rfl, rfl⟩
  | cons source rest ih =>
    have hsame : Interpreter.eval (.ok wide) source machine
        = Interpreter.eval (.ok narrow) source machine := by
      rcases eval_widened hle source machine with ⟨obstacle, hanswer, hoverflow⟩ | hsame
      · have hnone := h obstacle (hanswer ▸ List.mem_cons_self)
        exact absurd (hoverflow.symm.trans hnone) Bool.noConfusion
      · exact hsame
    obtain ⟨hanswers, hrun⟩ := ih (ending (Interpreter.eval (.ok narrow) source machine))
      fun obstacle hmem => h obstacle (List.mem_cons_of_mem _ hmem)
    constructor
    · rw [answers, answers, hsame, hanswers]
    · rw [List.map_cons, List.map_cons, run, run, List.foldl_cons, List.foldl_cons, step, step,
        hsame]
      exact hrun

/-- Let a sequence of inputs, evaluated in a fresh session under a narrow width, give no overflow:
no number literal that is out of range, and no result of arithmetic that is. Then under every
wider width the same inputs give, one by one, the same values and the same errors, with the same
rest of the input where one cannot be read, and the session ends in the same machine, with the same
bindings and the same wish to quit. -/
theorem widening_keeps_session {narrow wide : Width} (hle : narrow.bits ≤ wide.bits)
    (sources : List String)
    (h : ∀ obstacle, .error obstacle ∈ answers narrow sources start →
      obstacle.isOverflow = false) :
    answers wide sources start = answers narrow sources start ∧
    run (sources.map (.eval (.ok wide))) start = run (sources.map (.eval (.ok narrow))) start :=
  answers_widened hle sources start h

/-- A sum that reaches the greatest number of eight bits, and a sum that fails, under sixty-four
bits. -/
theorem widening_keeps_greatest :
    let binding : Term := .list [.identifier "let", .identifier "x", .number 100]
    let sum : Term := .list [.identifier "+", .identifier "x", .number 27]
    let failing : Term := .list [.identifier "+", .identifier "x", .identifier "y"]
    answers ⟨64, by decide⟩ [binding.write, sum.write, failing.write] start
      = [.ok (.number 100), .ok (.number 127),
          .error (.fault (.language .operandNotANumber))] := by
  intro binding sum failing
  have hname : ∀ name ∈ ["let", "x", "y", "+"], Grammar.IsName name := by
    intro name hmem
    simp only [List.mem_cons, List.not_mem_nil, or_false] at hmem
    rcases hmem with rfl | rfl | rfl | rfl
    all_goals exact ⟨.intro rfl (List.all_eq_true.mp rfl) (by decide), by decide⟩
  have hparse : ∀ t ∈ [binding, sum, failing],
      Reader.parse (.ok ⟨8, by decide⟩) t.write = .ok t := by
    intro t ht
    refine Grammar.Readable.parse_write ?_
    simp only [List.mem_cons, List.not_mem_nil, or_false] at ht
    rcases ht with rfl | rfl | rfl
    all_goals
      refine .list fun element helement => ?_
      simp only [List.mem_cons, List.not_mem_nil, or_false] at helement
      rcases helement with rfl | rfl | rfl
      all_goals first
        | exact .identifier (hname _ (by decide))
        | exact .number (by decide)
  simp only [List.forall_mem_cons] at hparse
  obtain ⟨hbinding, hsum, hfailing, -⟩ := hparse
  have hanswers : answers ⟨8, by decide⟩ [binding.write, sum.write, failing.write] start
      = [.ok (.number 100), .ok (.number 127),
          .error (.fault (.language .operandNotANumber))] := by
    simp only [answers, Interpreter.eval, bind, EStateM.bind, Interpreter.read, hbinding, hsum,
      hfailing]
    rfl
  refine (widening_keeps_session (by decide) _ fun obstacle hmem => ?_).1.trans hanswers
  rw [hanswers] at hmem
  simp only [List.mem_cons, List.not_mem_nil, or_false, reduceCtorEq, false_or,
    Except.error.injEq] at hmem
  rw [hmem]
  rfl

end Session

end ScopeLisp
