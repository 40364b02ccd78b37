import ScopeLisp.Proofs.Refinement.Agreement

/-!
# What evaluation passes on

The evaluator is put together from a few basic steps, by sequences and by local scopes. So a
property of computations that the basic steps have, and that sequences and local scopes pass on,
holds of every evaluation, whatever the term, its context and the width (`Compositional`).

Operands carry their evaluations with them. The parts of the evaluator are gone through for
operands whose evaluations have the property, and the induction over terms puts in the evaluator
itself.

* `Compositional.runPrimitive`, `Compositional.call`: the bodies of all functions, and calls.
* `Compositional.evaluate`: every evaluation has the property.
-/

namespace ScopeLisp

open Evaluation

/-- A property of computations that the basic steps of the evaluator have, and that its ways to
put computations together pass on. -/
structure Compositional (Holds : ∀ {α : Type}, Eval α → Prop) : Prop where
  pure : ∀ {α : Type} (a : α), Holds (Pure.pure a : Eval α)
  throw : ∀ {α : Type} (fault : Fault), Holds (MonadExcept.throw fault : Eval α)
  bind : ∀ {α β : Type} {x : Eval α} {f : α → Eval β},
    Holds x → (∀ a, Holds (f a)) → Holds (x >>= f)
  look : ∀ {α : Type} (query : Arena → Except Misuse α), Holds (Eval.look query)
  note : ∀ level origin message, Holds (Eval.note level origin message)
  quit : Holds (modify fun machine => { machine with quit := true } : Eval PUnit)
  /-- A check changes nothing, but it may fail. -/
  check : ∀ check : Arena → Except Fault Unit,
    Holds (Eval.change fun arena => (check arena).map fun _ => arena)
  setValue : ∀ (context : Context) (name : String) (value : Term),
    Holds (Eval.change fun arena => context.setValue arena name value)
  inChild : ∀ {α : Type} (context : Context) {body : Context → Eval α},
    (∀ inner, Holds (body inner)) → Holds (Eval.inChild context body)

/-- What passes a check goes on as it was. -/
theorem eq_of_checked {arena after : Arena} {checked : Except Fault Unit}
    (h : (checked.map fun _ => arena) = .ok after) : after = arena := by
  cases checked with
  | ok passed => exact (Except.ok.inj h).symm
  | error fault => cases h

namespace Compositional

variable {Holds : ∀ {α : Type}, Eval α → Prop} (h : Compositional Holds)

include h

/-! ## Parts of an evaluation -/

theorem ofExcept {α : Type} (outcome : Except Fault α) : Holds (Eval.ofExcept outcome) := by
  cases outcome with
  | ok a => exact h.pure a
  | error fault => exact h.throw fault

theorem nameOf (operand : Operand) : Holds (nameOf operand) := by
  unfold Evaluation.nameOf
  cases asName operand.term with
  | ok name => exact h.pure name
  | error e => exact h.throw _

theorem bindEach (context : Context) (actions : List Action) :
    Holds (bindEach context actions) := by
  induction actions with
  | nil => exact h.pure ()
  | cons action rest ih =>
    cases action with
    | setValue name value =>
      exact h.bind (h.note _ _ _) fun _ => h.bind (h.setValue context name value) fun _ => ih
    | foreign value => exact ih

theorem commit (context : Context) (actions : List Action) : Holds (commit context actions) := by
  unfold Evaluation.commit
  split
  · exact h.pure ()
  · exact h.bind (h.check _) fun _ => h.bindEach context actions

/-- What a computation asks for is committed before its value is passed on. -/
theorem settled {x : Eval Yield} (hx : Holds x) (context : Context) : Holds (settled context x) :=
  h.bind hx fun result => h.bind (h.commit context result.actions) fun _ => h.pure _

theorem evaluateName (name : String) (context : Context) : Holds (evaluateName name context) := by
  refine h.bind (h.look _) fun found => ?_
  cases found with
  | none => exact h.pure _
  | some value => exact h.pure _

theorem bindLocals (context : Context) (operands : List Operand) :
    Holds (bindLocals context operands) := by
  match operands with
  | [] => exact h.pure ()
  | [name] => exact h.bind (h.nameOf name) fun _ => h.throw _
  | name :: value :: rest =>
    refine h.bind (h.nameOf name) fun text => ?_
    exact h.bind (h.setValue context text value.term) fun _ => bindLocals context rest

theorem pairActions (operands : List Operand) : Holds (pairActions operands) := by
  match operands with
  | [] => exact h.pure []
  | [name] => exact h.bind (h.nameOf name) fun _ => h.throw _
  | name :: _ :: rest =>
    exact h.bind (h.nameOf name) fun _ => h.bind (pairActions rest) fun _ => h.pure _

/-! ## Calls -/

section Calls

variable {operands : List Operand}
  (ih : ∀ operand ∈ operands, ∀ context, Holds (operand.evaluate context))

include ih

theorem fold (width : WidthSetting) (op : Int → Int → Int) (context : Context) (soFar : Yield) :
    Holds (fold width op context soFar operands) := by
  induction operands generalizing soFar with
  | nil => exact h.pure soFar
  | cons operand rest ihrest =>
    obtain ⟨hfirst, hrest⟩ := List.forall_mem_cons.mp ih
    refine h.bind (hfirst context) fun next => ?_
    exact h.bind (h.ofExcept _) fun term => ihrest hrest _

theorem evaluateEach (context : Context) : Holds (evaluateEach context operands) := by
  induction operands with
  | nil => exact h.pure _
  | cons operand rest ihrest =>
    obtain ⟨hfirst, hrest⟩ := List.forall_mem_cons.mp ih
    exact h.bind (hfirst context) fun _ => h.bind (ihrest hrest) fun _ => h.pure _

theorem evaluateLocally (context : Context) : Holds (evaluateLocally context operands) := by
  unfold Evaluation.evaluateLocally
  split
  · exact h.throw _
  · cases operands with
    | nil => exact h.throw _
    | cons body bindings =>
      obtain ⟨hbody, -⟩ := List.forall_mem_cons.mp ih
      refine h.inChild context fun inner => ?_
      exact h.bind (h.bindLocals inner bindings) fun _ => h.settled (hbody inner) inner

theorem runPrimitive (width : WidthSetting) (context : Context) (body : Primitive) :
    Holds (runPrimitive width context operands body) := by
  cases body with
  | add => exact h.fold ih width _ context _
  | multiply => exact h.fold ih width _ context _
  | subtract =>
    cases operands with
    | nil => exact h.throw _
    | cons first rest =>
      obtain ⟨hfirst, hrest⟩ := List.forall_mem_cons.mp ih
      exact h.bind (hfirst context) fun value => h.fold hrest width _ context value
  | bind =>
    match operands with
    | [] => exact h.throw _
    | [name] => exact h.bind (h.nameOf name) fun _ => h.throw _
    | name :: value :: rest => exact h.bind (h.nameOf name) fun _ => h.pure _
  | evaluate => exact h.evaluateLocally ih context
  | quit => exact h.bind h.quit fun _ => h.pure _
  | collect => exact h.pure _
  | bindAll => exact h.bind (h.pairActions operands) fun _ => h.pure _
  | sequence => exact h.bind (h.evaluateEach ih context) fun _ => h.pure _

theorem apply (width : WidthSetting) (callee : Callee) (context : Context) :
    Holds (apply width callee context operands) := by
  unfold Evaluation.apply
  split
  · split
    · exact h.runPrimitive ih width context _
    · exact h.throw _
  · exact h.throw _
  · exact h.throw _

theorem call (width : WidthSetting) (head : Term) (context : Context) :
    Holds (call width head operands context) := by
  unfold Evaluation.call
  split
  · refine h.bind (h.look _) fun found => ?_
    cases found with
    | none => exact h.throw _
    | some fn =>
      refine h.bind (h.note _ _ _) fun _ => ?_
      exact h.settled (h.apply ih width (.function fn) context) context
  · exact h.throw _

end Calls

/-! ## Terms -/

theorem evaluate (width : WidthSetting) (term : Term) (context : Context) :
    Holds (evaluate width term context) := by
  induction term using Term.induct generalizing context with
  | nil | boolean | number | string =>
    rw [Evaluation.evaluate]
    exact h.pure _
  | foreign value =>
    rw [Evaluation.evaluate]
    exact h.throw _
  | identifier name =>
    rw [Evaluation.evaluate]
    exact h.evaluateName name context
  | list terms ih =>
    cases terms with
    | nil =>
      rw [Evaluation.evaluate]
      exact h.pure _
    | cons head arguments =>
      rw [evaluate_list_cons]
      refine h.call (List.forall_mem_map.mpr fun t ht => ?_) width head context
      exact fun inner => ih t (List.mem_cons_of_mem _ ht) inner

end Compositional

end ScopeLisp
