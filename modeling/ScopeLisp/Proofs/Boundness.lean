import ScopeLisp.Proofs.Arena.Descent
import ScopeLisp.Proofs.Locality.Lockstep

/-!
# Unbound names

A term has an unbound name for a context if some name in it, at any depth, is bound neither to a
value nor to a function. That is looked up frame by frame and for both kinds of bindings at once,
but it comes to the same as looking the name up as a value and as a function.

A context may be in use for a long time, among other contexts of its arena: terms are evaluated,
with or without success, new contexts are entered and their frames released, and names are bound
(`Usage.Event`). All the while bindings are only added to the frames that the context shows. So once
a term has no unbound names for a context, that is so for good, and it is so for every context that
is entered below it.

* `Evaluation.hasUnbound_eq_false_iff`: no name is unbound if and only if each one is found.
* `Usage.becomes_step`, `Usage.sound_step`: what one event does to the arena.
* `Usage.Entered.descends`: entered contexts are below the one that they were entered from.
* `Usage.boundness_grows`: names that are bound stay bound.
-/

namespace ScopeLisp

open Session (ending)

/-! ## Looking for unbound names -/

theorem Table.lookup_isSome {α : Type} {table : Table α} {name : String} :
    (table.lookup name).isSome = table.binds name := by
  rw [Bool.eq_iff_iff, Table.binds_iff, lookup_isSome_iff_mem]

theorem exists_frame_binds_iff {frames : List Frame} {name : String} :
    (∃ frame ∈ frames, frame.binds name = true) ↔
      (∃ value, nearestValue frames name = some value) ∨
        ∃ fn, nearestFunction frames name = some fn := by
  simp only [← Option.isSome_iff_exists, nearestValue, nearestFunction, List.findSome?_isSome_iff,
    Table.lookup_isSome, Frame.binds, Bool.or_eq_true]
  constructor
  · rintro ⟨frame, hmem, hfunctions | hvalues⟩
    · exact .inr ⟨frame, hmem, hfunctions⟩
    · exact .inl ⟨frame, hmem, hvalues⟩
  · rintro (⟨frame, hmem, hvalues⟩ | ⟨frame, hmem, hfunctions⟩)
    · exact ⟨frame, hmem, .inr hvalues⟩
    · exact ⟨frame, hmem, .inl hfunctions⟩

namespace Evaluation

variable {context : Context} {arena : Arena} {frames : List Frame}

/-- Whether no frame of a chain binds the name. -/
def isUnbound (frames : List Frame) (name : String) : Bool :=
  !frames.any fun frame => frame.binds name

theorem anyUnbound_eq {terms : List Term}
    (ih : ∀ t ∈ terms, hasUnbound context arena t = .ok (t.names.any (isUnbound frames))) :
    anyUnbound context arena terms = .ok ((Term.namesAll terms).any (isUnbound frames)) := by
  induction terms with
  | nil => rfl
  | cons t ts ihts =>
    obtain ⟨hfirst, hrest⟩ := List.forall_mem_cons.mp ih
    rw [anyUnbound, hfirst, Term.namesAll, List.any_append]
    dsimp only [bind, Except.bind]
    cases t.names.any (isUnbound frames) with
    | true => rfl
    | false => exact ihts hrest

/-- In a live context a term has an unbound name, or it has none, by the frames in the chain of the
context. -/
theorem hasUnbound_eq (hchain : context.chain arena = .ok frames) (term : Term) :
    hasUnbound context arena term = .ok (term.names.any (isUnbound frames)) := by
  induction term using Term.induct with
  | nil | boolean | number | string | foreign =>
    rfl
  | identifier name =>
    rw [hasUnbound, Context.isBound, hchain, Term.names, List.any_cons, List.any_nil, Bool.or_false]
    rfl
  | list terms ih =>
    rw [hasUnbound, Term.names]
    exact anyUnbound_eq ih

theorem hasUnbound_eq_false_iff (hchain : context.chain arena = .ok frames) {term : Term} :
    hasUnbound context arena term = .ok false ↔
      ∀ name ∈ term.names, ∃ frame ∈ frames, frame.binds name = true := by
  rw [hasUnbound_eq hchain, Except.ok.injEq, List.any_eq_false]
  refine forall₂_congr fun name _ => ?_
  rw [isUnbound, Bool.not_eq_true, Bool.not_eq_false', List.any_eq_true]

end Evaluation

/-! ## A context in use -/

/-- The frame of the context has not been released. -/
def Context.IsLive (context : Context) (arena : Arena) : Prop :=
  ∃ frame, context.frame arena = .ok frame

theorem Context.IsLive.exists_chain {context : Context} {arena : Arena} (h : context.IsLive arena) :
    ∃ frames, context.chain arena = .ok frames := by
  obtain ⟨frame, hframe⟩ := h
  rw [Context.chain, hframe]
  exact ⟨_, rfl⟩

namespace Usage

open Evaluation (hasUnbound hasUnbound_eq hasUnbound_eq_false_iff)

/-- Something that is done with a machine. -/
inductive Event where
  /-- An operation on the arena, at once or through a view of a frame. -/
  | operate (operation : Arena.Operation)
  /-- A term is evaluated, with or without success. -/
  | evaluate (width : WidthSetting) (context : Context) (term : Term)
  /-- A new context is entered below a view, with functions and values bound in it. -/
  | enter (view : Context) (functions : Table Function) (values : Table Term)

/-- The machine after an event. An operation or a new context that is refused leaves the machine as
it was. -/
def step (machine : Machine) : Event → Machine
  | .operate operation => { machine with arena := machine.arena.step operation }
  | .evaluate width context term => ending (Evaluation.evaluate width term context machine)
  | .enter view functions values =>
    match view.child machine.arena functions values with
    | .ok (_, arena) => { machine with arena }
    | .error _ => machine

/-- The arena after a history, which starts without frames. -/
def arena (history : List Event) : Arena := (history.foldl step {}).arena

/-- The view was entered below the context at some time in the history: below the context itself or
below a view that was entered before, while that one was live. A context that is entered below a
view whose frame is gone is not below that frame: it is refused, or it hangs below whatever frame
is in the slot by then (`Arena.stale_view_refused_except_child`). -/
inductive Entered (context : Context) : (history : List Event) → Context → Prop
  | first {history : List Event} {inner : Context} {functions : Table Function}
    {values : Table Term} {after : Arena} :
    context.IsLive (arena history) →
    context.child (arena history) functions values = .ok (inner, after) →
    Entered context (history ++ [.enter context functions values]) inner
  | next {history : List Event} {view inner : Context} {functions : Table Function}
    {values : Table Term} {after : Arena} :
    Entered context history view → view.IsLive (arena history) →
    view.child (arena history) functions values = .ok (inner, after) →
    Entered context (history ++ [.enter view functions values]) inner
  | before {history : List Event} {view : Context} (event : Event) :
    Entered context history view → Entered context (history ++ [event]) view

/-! ## What a history does to the arena -/

theorem sound_step {machine : Machine}
    (h : Arena.Sound machine.arena.births machine.arena.nextGeneration) (event : Event) :
    Arena.Sound (step machine event).arena.births (step machine event).arena.nextGeneration := by
  cases event with
  | operate operation => exact Arena.sound_step h operation
  | evaluate width context term =>
    have hextends := extends_evaluate width term context machine
    rw [step, hextends.births_eq]
    exact h.mono hextends.next_le
  | enter view functions values =>
    rw [step]
    split
    · rename_i hchild
      exact Context.sound_child h hchild
    · exact h

theorem becomes_step (machine : Machine) (event : Event) :
    machine.arena.Becomes (step machine event).arena := by
  cases event with
  | operate operation => exact Arena.becomes_step machine.arena operation
  | evaluate width context term => exact (extends_evaluate width term context machine).becomes
  | enter view functions values =>
    rw [step]
    split
    · rename_i hchild
      exact Context.becomes_child hchild
    · exact (Arena.Extends.refl _).becomes

theorem sound_foldl {machine : Machine}
    (h : Arena.Sound machine.arena.births machine.arena.nextGeneration) (history : List Event) :
    Arena.Sound (history.foldl step machine).arena.births
      (history.foldl step machine).arena.nextGeneration := by
  induction history generalizing machine with
  | nil => exact h
  | cons event rest ih => exact ih (sound_step h event)

theorem becomes_foldl (machine : Machine) (history : List Event) :
    machine.arena.Becomes (history.foldl step machine).arena := by
  induction history generalizing machine with
  | nil => exact (Arena.Extends.refl _).becomes
  | cons event rest ih => exact (becomes_step machine event).trans (ih _)

theorem sound (history : List Event) :
    Arena.Sound (arena history).births (arena history).nextGeneration := by
  refine sound_foldl ?_ history
  show Arena.Sound [] _
  trivial

theorem becomes_append (history later : List Event) :
    (arena history).Becomes (arena (history ++ later)) := by
  rw [arena, arena, List.foldl_append]
  exact becomes_foldl _ later

/-- Evaluations leave all frames that they find. -/
theorem extends_append {history later : List Event}
    (h : ∀ event ∈ later, ∃ width context term, event = .evaluate width context term) :
    (arena history).Extends (arena (history ++ later)) := by
  rw [arena, arena, List.foldl_append]
  generalize history.foldl step {} = machine
  induction later generalizing machine with
  | nil => exact .refl _
  | cons event rest ih =>
    obtain ⟨⟨width, context, term, rfl⟩, hrest⟩ := List.forall_mem_cons.mp h
    exact (extends_evaluate width term context machine).trans (ih hrest _)

/-! ## Contexts below a context -/

theorem arena_enter {history : List Event} {view inner : Context} {functions : Table Function}
    {values : Table Term} {after : Arena}
    (h : view.child (arena history) functions values = .ok (inner, after)) :
    arena (history ++ [.enter view functions values]) = after := by
  rw [arena, List.foldl_append, List.foldl_cons, List.foldl_nil, step]
  rw [arena] at h
  rw [h]

/-- A context that was entered is older than whatever comes now, and as long as it is live, the way
up from it leads to the context that it was entered below. -/
theorem Entered.descends {context inner : Context} {history : List Event}
    (h : Entered context history inner) :
    inner.generation < (arena history).nextGeneration ∧
      (inner.IsLive (arena history) → Context.Descends (arena history) inner context) := by
  induction h with
  | first hlive hchild =>
    obtain ⟨frame, hframe⟩ := hlive
    have hparent := Context.parent_of_child hframe hchild
    obtain ⟨top, _, htop, -, -⟩ := Context.parent_eq_some_iff.mp hparent
    rw [← arena_enter hchild] at hparent htop
    exact ⟨Context.generation_lt (sound _) htop, fun _ => .single hparent⟩
  | @next history view _ _ _ _ hentered hlive hchild ih =>
    obtain ⟨frame, hframe⟩ := hlive
    have hparent := Context.parent_of_child hframe hchild
    obtain ⟨top, above, htop, -, habove⟩ := Context.parent_eq_some_iff.mp hparent
    rw [← arena_enter hchild] at hparent htop habove
    have hdescends := (ih.2 ⟨frame, hframe⟩).kept (sound _) (sound _) (becomes_append _ _) habove
    exact ⟨Context.generation_lt (sound _) htop, fun _ => .head hparent hdescends⟩
  | @before history view event hentered ih =>
    have hbecomes := becomes_append history [event]
    refine ⟨Nat.lt_of_lt_of_le ih.1 hbecomes.next_le, ?_⟩
    rintro ⟨later, hlater⟩
    obtain ⟨frame, hframe, -⟩ := hbecomes.exists_frame hlater ih.1
    exact (ih.2 ⟨frame, hframe⟩).kept (sound _) (sound _) hbecomes hlater

/-! ## Boundness over a history -/

theorem hasUnbound_eq_false_iff_sees {history : List Event} {context : Context}
    (hlive : context.IsLive (arena history)) {term : Term} :
    hasUnbound context (arena history) term = .ok false ↔
      ∀ name ∈ term.names, context.Sees (arena history) name := by
  obtain ⟨frames, hchain⟩ := hlive.exists_chain
  rw [hasUnbound_eq_false_iff hchain]
  exact forall₂_congr fun name _ => (Context.sees_iff (sound history) hchain).symm

/-- For every live context it is settled whether a term has an unbound name. It has none if and only
if each name in it, at any depth and at the head of a call as well, is found as a value or as a
function. Once a term has none for a context, no evaluation of whatever terms in whatever contexts,
successful or failed, gives it one, and neither does anything else that can be done with the arena
while the context is live. Nor has it one for any live context that was entered below the context,
directly or below others that were, each of them live when it was entered below. Nothing is said of
a context that is entered below a released view, since it may hang below another frame, which need
not bind the names (`Arena.stale_view_refused_except_child`). -/
theorem boundness_grows (history : List Event) {context : Context}
    (hlive : context.IsLive (arena history)) (term : Term) :
    (∃ unbound, hasUnbound context (arena history) term = .ok unbound) ∧
    (hasUnbound context (arena history) term = .ok false ↔
      ∀ name ∈ term.names,
        (∃ value, context.findValue (arena history) name = .ok (some value)) ∨
          ∃ fn, context.findFunction (arena history) name = .ok (some fn)) ∧
    (hasUnbound context (arena history) term = .ok false →
      (∀ later, (∀ event ∈ later, ∃ width view t, event = .evaluate width view t) →
        hasUnbound context (arena (history ++ later)) term = .ok false) ∧
      ∀ later, context.IsLive (arena (history ++ later)) →
        hasUnbound context (arena (history ++ later)) term = .ok false ∧
        ∀ inner, Entered context (history ++ later) inner →
          inner.IsLive (arena (history ++ later)) →
          hasUnbound inner (arena (history ++ later)) term = .ok false) := by
  obtain ⟨frames, hchain⟩ := hlive.exists_chain
  refine ⟨⟨_, hasUnbound_eq hchain term⟩, ?_, fun hbound => ?_⟩
  · rw [hasUnbound_eq_false_iff hchain]
    refine forall₂_congr fun name _ => exists_frame_binds_iff.trans ?_
    rw [Context.findValue, Context.findFunction, hchain]
    simp only [bind, Except.bind, pure, Except.pure, Except.ok.injEq]
    rfl
  · rw [hasUnbound_eq_false_iff_sees hlive] at hbound
    have hstays : ∀ later, context.IsLive (arena (history ++ later)) → ∀ name ∈ term.names,
        context.Sees (arena (history ++ later)) name := by
      rintro later ⟨_, hlater⟩ name hname
      exact (hbound name hname).kept (sound _) (sound _) (becomes_append history later) hlater
    refine ⟨fun later hevaluations => ?_, fun later hlater => ⟨?_, fun inner hentered hinner => ?_⟩⟩
    · obtain ⟨frame, hframe⟩ := hlive
      obtain ⟨grown, hgrown, -⟩ := (extends_append hevaluations).exists_frame hframe
      exact (hasUnbound_eq_false_iff_sees ⟨grown, hgrown⟩).mpr (hstays later ⟨grown, hgrown⟩)
    · exact (hasUnbound_eq_false_iff_sees hlater).mpr (hstays later hlater)
    · have hdescends := hentered.descends.2 hinner
      exact (hasUnbound_eq_false_iff_sees hinner).mpr fun name hname =>
        (hstays later hlater name hname).below hdescends

/-- The name `x` is bound. Binding it again fails, and it is bound once more in a new context, where
binding it again fails as well. -/
theorem boundness_grows_shadowed :
    let binding (value : Int) : Term := .list [.identifier "let", .identifier "x", .number value]
    let attempt (context : Context) (value : Int) : Event :=
      .evaluate (.ok ⟨8, by decide⟩) context (binding value)
    let history : List Event := [.operate (.allocate none),
      .operate (.setFunction ⟨0, 1⟩ "let" (.builtin ⟨.exactly 2, "let", .bind⟩)), attempt ⟨0, 1⟩ 1]
    let later : List Event :=
      [attempt ⟨0, 1⟩ 2, .enter ⟨0, 1⟩ [] [("x", .number 3)], attempt ⟨1, 2⟩ 4]
    hasUnbound ⟨0, 1⟩ (arena history) (binding 5) = .ok false ∧
      hasUnbound ⟨1, 2⟩ (arena (history ++ later)) (binding 5) = .ok false := by
  intro binding attempt history later
  let outer : Frame :=
    { values := [("x", .number 1)], functions := [("let", .builtin ⟨.exactly 2, "let", .bind⟩)],
      parent := none, generation := 1 }
  let inner : Frame := { values := [("x", .number 3)], parent := some 0, generation := 2 }
  have houter : Context.frame ⟨0, 1⟩ (arena history) = .ok outer := by decide +kernel
  have hbound : hasUnbound ⟨0, 1⟩ (arena history) (binding 5) = .ok false := by decide +kernel
  obtain ⟨-, -, hgrows⟩ := boundness_grows history ⟨outer, houter⟩ (binding 5)
  obtain ⟨-, hlater⟩ := hgrows hbound
  have hlive : Context.frame ⟨0, 1⟩ (arena (history ++ later)) = .ok outer := by decide +kernel
  have hinner : Context.frame ⟨1, 2⟩ (arena (history ++ later)) = .ok inner := by decide +kernel
  have hretried : Context.frame ⟨0, 1⟩ (arena (history ++ [attempt ⟨0, 1⟩ 2])) = .ok outer := by
    decide +kernel
  have hchild : Context.child ⟨0, 1⟩ (arena (history ++ [attempt ⟨0, 1⟩ 2])) [] [("x", .number 3)]
      = .ok (⟨1, 2⟩, { frames := [inner, outer], nextGeneration := 3 }) := by
    decide +kernel
  have hentered := (Entered.first ⟨outer, hretried⟩ hchild).before (attempt ⟨1, 2⟩ 4)
  exact ⟨hbound, (hlater later ⟨outer, hlive⟩).2 ⟨1, 2⟩ hentered ⟨inner, hinner⟩⟩

end Usage

end ScopeLisp
