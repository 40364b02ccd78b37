import ScopeLisp.Proofs.Session

/-!
# The footprint of an evaluation

What an evaluation binds in its own frame can be read off the term. A binding call asks for its
binding as written, arithmetic asks for what its operands ask for, from the left, and nothing else
asks for anything. In a context with the standard functions a successful evaluation binds exactly
what its term asks for (`footprint`), and a failed one binds a first part of it.

* `Scopes.writesFootprint`: the footprint on scopes, by induction over terms.
* `Session.globalValues_prefix_run`: the global frame only grows, at the end of its table.
* `evaluate_writes_footprint`: the footprint in the stack, that names keep their values over a
  session, and that local scopes leave every frame alone.
-/

namespace ScopeLisp

open Scopes

/-! ## The bindings that a term asks for -/

/-- The binding that the arguments of a binding call ask for. -/
def askedBinding : List Term → Table Term
  | [.identifier name, value] => [(name, value)]
  | _ => []

mutual

/-- The bindings that a term asks for in the frame in which it is evaluated: those of its
arithmetic operands from the left, at any depth, each as written. -/
def footprint : Term → Table Term
  | .list (.identifier head :: arguments) =>
    if head ∈ ["+", "-", "*"] then footprintAll arguments
    else if head = "let" then askedBinding arguments
    else []
  | _ => []

/-- The bindings that several terms ask for, in order. -/
def footprintAll : List Term → Table Term
  | [] => []
  | t :: ts => footprint t ++ footprintAll ts

end

theorem footprint_arithmetic {head : String} (h : head ∈ ["+", "-", "*"])
    (arguments : List Term) :
    footprint (.list (.identifier head :: arguments)) = footprintAll arguments := by
  rw [footprint, if_pos h]

theorem footprint_let (arguments : List Term) :
    footprint (.list (.identifier "let" :: arguments)) = askedBinding arguments := by
  rw [footprint, if_neg (by decide), if_pos rfl]

theorem footprint_other {head : String} (h : head ∉ ["+", "-", "*", "let"])
    (arguments : List Term) : footprint (.list (.identifier head :: arguments)) = [] := by
  have harithmetic : head ∉ ["+", "-", "*"] := fun hm => h (by simp at hm ⊢; tauto)
  have hlet : head ≠ "let" := fun hm => h (by simp [hm])
  rw [footprint, if_neg harithmetic, if_neg hlet]

/-! ## Outcomes and what they write -/

namespace Scopes

/-- The outcome has added to a table all that was asked for, or, when it stopped, the first
part of it. -/
structure Outcome.Writes (outcome : Outcome) (before asked : Table Term) : Prop where
  of_ok : ∀ value, outcome.answer = .ok value → outcome.values = before ++ asked
  of_error : ∀ stop, outcome.answer = .error stop →
    ∃ written, written <+: asked ∧ outcome.values = before ++ written

namespace Outcome.Writes

variable {before asked : Table Term}

/-- An answer that writes nothing, where nothing was asked for. -/
theorem still (answer : Except Stop Term) (quit : Bool) :
    Writes ⟨answer, before, quit⟩ before [] where
  of_ok _ _ := (List.append_nil before).symm
  of_error _ _ := ⟨[], List.prefix_rfl, (List.append_nil before).symm⟩

/-- A stop before anything is written. -/
theorem stop (reason : Stop) (quit : Bool) : Writes ⟨.error reason, before, quit⟩ before asked where
  of_ok _ h := by cases h
  of_error _ _ := ⟨[], List.nil_prefix, (List.append_nil before).symm⟩

theorem andThen {first : Outcome} {next : Term → Table Term → Bool → Outcome}
    {later : Table Term} (hfirst : first.Writes before asked)
    (hnext : ∀ value, first.answer = .ok value →
      (next value first.values first.quit).Writes first.values later) :
    (first.andThen next).Writes before (asked ++ later) := by
  cases hanswer : first.answer with
  | error reason =>
    obtain ⟨written, hwritten, hvalues⟩ := hfirst.of_error reason hanswer
    rw [Outcome.andThen, hanswer]
    exact {
      of_ok := fun _ h => by cases h
      of_error := fun _ _ => ⟨written, hwritten.trans (List.prefix_append _ _), hvalues⟩ }
  | ok value =>
    have hvalues := hfirst.of_ok value hanswer
    have hlater := hnext value hanswer
    rw [Outcome.andThen, hanswer]
    refine { of_ok := fun result hresult => ?_, of_error := fun reason hreason => ?_ }
    · rw [hlater.of_ok result hresult, hvalues, List.append_assoc]
    · obtain ⟨written, hwritten, hafter⟩ := hlater.of_error reason hreason
      refine ⟨asked ++ written, (List.prefix_append_right_inj asked).mpr hwritten, ?_⟩
      rw [hafter, hvalues, List.append_assoc]

/-- Whatever the answer, a first part of what was asked for has been added. -/
theorem exists_written {outcome : Outcome} (h : outcome.Writes before asked) :
    ∃ written, written <+: asked ∧ outcome.values = before ++ written := by
  cases hanswer : outcome.answer with
  | ok value => exact ⟨asked, List.prefix_rfl, h.of_ok value hanswer⟩
  | error reason => exact h.of_error reason hanswer

theorem isPrefix {outcome : Outcome} (h : outcome.Writes before asked) :
    before <+: outcome.values := by
  obtain ⟨written, -, hvalues⟩ := h.exists_written
  rw [hvalues]
  exact List.prefix_append _ _

theorem values_eq_of_nil {outcome : Outcome} (h : outcome.Writes before []) :
    outcome.values = before := by
  obtain ⟨written, hwritten, hvalues⟩ := h.exists_written
  rw [hvalues, List.prefix_nil.mp hwritten, List.append_nil]

end Outcome.Writes

/-! ## The footprint on scopes -/

theorem extend_writes (near : Scope) (quit : Bool) (name value : Term) :
    Outcome.Writes (match extend near.values name value with
        | .ok values => ⟨.ok value, values, quit⟩
        | .error stop => ⟨.error stop, near.values, quit⟩)
      near.values (askedBinding [name, value]) := by
  unfold extend
  cases name with
  | identifier text =>
    dsimp only
    by_cases h : text ∈ near.values.map Prod.fst
    · rw [if_pos h]
      exact .stop _ _
    · rw [if_neg h]
      exact { of_ok := fun _ _ => rfl, of_error := fun _ hstop => by cases hstop }
  | _ => exact .stop _ _

/-- The term writes its footprint, in every standard scope. -/
def WritesFootprint (width : WidthSetting) (term : Term) : Prop :=
  ∀ (near : Scope) (outer : List Scope) (quit : Bool), Standard (near :: outer) →
    (evaluate width term near outer quit).Writes near.values (footprint term)

theorem accumulate_writes {width : WidthSetting} {terms : List Term}
    (ih : ∀ t ∈ terms, WritesFootprint width t) (op : Int → Int → Int) (value : Term)
    {near : Scope} {outer : List Scope} (quit : Bool) (h : Standard (near :: outer)) :
    (accumulate width terms op value near outer quit).Writes near.values
      (footprintAll terms) := by
  induction terms generalizing value near quit with
  | nil =>
    rw [accumulate, footprintAll]
    exact .still _ _
  | cons operand rest ihrest =>
    rw [accumulate, footprintAll]
    have hfirst := ih operand List.mem_cons_self near outer quit h
    refine hfirst.andThen fun next _ => ?_
    cases calculate width op value next with
    | error stop => exact .stop _ _
    | ok value =>
      exact ihrest (fun t ht => ih t (List.mem_cons_of_mem _ ht)) value _ (h.rebind _)

theorem call_writes {width : WidthSetting} (name : String) {arguments : List Term}
    (ih : ∀ t ∈ arguments, WritesFootprint width t) :
    WritesFootprint width (.list (.identifier name :: arguments)) := by
  intro near outer quit h
  rcases lookup_standardForms name with ⟨rfl, hform⟩ | ⟨rfl, hform⟩ | ⟨rfl, hform⟩ | ⟨rfl, hform⟩ |
    ⟨rfl, hform⟩ | ⟨rfl, hform⟩ | ⟨hname, hform⟩
  all_goals rw [← h] at hform
  · rw [evaluate_add hform, footprint_arithmetic (by decide)]
    exact accumulate_writes ih _ _ quit h
  · rw [footprint_arithmetic (by decide)]
    cases arguments with
    | nil =>
      rw [evaluate_subtract_nil hform]
      exact .stop _ _
    | cons first rest =>
      rw [evaluate_subtract_cons hform, footprintAll]
      refine (ih first List.mem_cons_self near outer quit h).andThen fun value _ => ?_
      exact accumulate_writes (fun t ht => ih t (List.mem_cons_of_mem _ ht)) _ value _ (h.rebind _)
  · rw [evaluate_multiply hform, footprint_arithmetic (by decide)]
    exact accumulate_writes ih _ _ quit h
  · rw [footprint_let]
    by_cases hcount : arguments.length = 2
    · obtain ⟨bound, value, rfl⟩ := List.length_eq_two.mp hcount
      rw [evaluate_bind hform]
      exact extend_writes near quit bound value
    · rw [evaluate_bind_miscount hform hcount]
      exact .stop _ _
  · rw [footprint_other (by decide)]
    cases arguments with
    | nil =>
      rw [evaluate_evaluate_nil hform]
      exact .still _ _
    | cons body pairs =>
      rw [evaluate_evaluate_cons hform]
      split
      · exact .still _ _
      · split
        · exact .still _ _
        · exact .still _ _
  · rw [footprint_other (by decide)]
    cases arguments with
    | nil =>
      rw [evaluate_quit hform]
      exact .still _ _
    | cons first rest =>
      rw [evaluate_quit_cons hform]
      exact .still _ _
  · rw [evaluate_unbound hform]
    exact .stop _ _

/-- Every term writes its footprint: by induction over the terms. -/
theorem writesFootprint (width : WidthSetting) (term : Term) : WritesFootprint width term := by
  induction term using Term.induct with
  | nil | boolean | number | string | foreign | identifier =>
    intro near outer quit _
    rw [evaluate, footprint]
    · exact .still _ _
    · simp
  | list terms ih =>
    cases terms with
    | nil =>
      intro near outer quit _
      rw [evaluate, footprint]
      · exact .still _ _
      · simp
    | cons head arguments =>
      by_cases hname : ∃ name, head = .identifier name
      · obtain ⟨name, rfl⟩ := hname
        exact call_writes name fun t ht => ih t (List.mem_cons_of_mem _ ht)
      · intro near outer quit _
        rw [evaluate_head fun name h => hname ⟨name, h⟩]
        exact .stop _ _

end Scopes

/-! ## Sessions -/

namespace Session

theorem globalValues_prefix_step {machine : Machine} (h : AtRest machine) (input : Input) :
    globalValues machine <+: globalValues (step machine input) := by
  rcases step_frames h input with hframes | ⟨term, -, hframes⟩
  · have hkept := globalValues_of_frames_eq (hframes.trans h.frames_eq)
    exact hkept ▸ List.prefix_rfl
  · rw [globalValues_of_frames_eq hframes]
    exact (writesFootprint input.width term _ _ _ (standard_globalScope _)).isPrefix

/-- Over a session, bindings are only added, and only at the end. -/
theorem globalValues_prefix_run {machine : Machine} (h : AtRest machine) (inputs : List Input) :
    globalValues machine <+: globalValues (run inputs machine) := by
  induction inputs generalizing machine with
  | nil => exact List.prefix_rfl
  | cons input rest ih =>
    exact (globalValues_prefix_step h input).trans (ih (atRest_step h input))

end Session

/-! ## The footprint in the stack -/

/-- The last frame of a chain has the standard functions, and no other frame has functions. -/
def StandardChain (frames : List Frame) : Prop :=
  ∃ inner root, frames = inner ++ [root] ∧ (∀ frame ∈ inner, frame.functions = []) ∧
    root.functions = standardFunctions

namespace StandardChain

variable {frames : List Frame}

theorem standard (h : StandardChain frames) : Standard (frames.map Frame.scope) := by
  obtain ⟨inner, root, rfl, hinner, hroot⟩ := h
  intro name
  rw [findForm_scopes, List.findSome?_append]
  have hnone : (inner.findSome? fun frame => frame.functions.lookup name) = none := by
    rw [List.findSome?_eq_none_iff]
    intro frame hframe
    rw [hinner frame hframe]
    rfl
  rw [hnone, Option.none_or, List.findSome?_singleton, hroot, ← lookup_map_snd]
  rfl

theorem isPlain (h : StandardChain frames) : ∀ frame ∈ frames, frame.IsPlain := by
  obtain ⟨inner, root, rfl, hinner, hroot⟩ := h
  intro frame hframe entry hentry
  rcases List.mem_append.mp hframe with hframe | hframe
  · rw [hinner frame hframe] at hentry
    cases hentry
  · rw [List.mem_singleton.mp hframe, hroot] at hentry
    exact .inl (List.mem_map_of_mem hentry)

end StandardChain

namespace Evaluation

variable {context : Context} {machine : Machine} {frame : Frame} {outer : List Frame}

/-- What a run in the stack comes to when the chain of its context is a standard one. -/
theorem run_standard (width : WidthSetting) (term : Term)
    (hlive : context.chain machine.arena = .ok (frame :: outer))
    (hstandard : StandardChain (frame :: outer)) :
    ∃ (outcome : Outcome) (after : Machine),
      evaluate width term context machine = outcome.result after ∧
      outcome.Writes frame.values (footprint term) ∧
      context.frame after.arena = .ok { frame with values := outcome.values } ∧
      after.arena.frames
        = updateAt (fun frame => { frame with values := outcome.values }) machine.arena.frames
            context.handle := by
  obtain ⟨_, _, hframes, hs⟩ := Context.chain_eq_ok_iff.mp hlive
  obtain ⟨rfl, rfl⟩ := List.cons.inj hframes
  obtain ⟨after, hrun, -, hrebinds⟩ :=
    refines width term context machine frame outer ⟨hs, hstandard.isPlain⟩
  exact ⟨_, after, hrun, writesFootprint width term _ _ _ hstandard.standard,
    (hrebinds.shows hs).frame_eq, hrebinds.frames_eq⟩

theorem updateAt_of_values_eq (hlive : context.chain machine.arena = .ok (frame :: outer))
    {values : Table Term} (h : values = frame.values) :
    updateAt (fun frame => { frame with values }) machine.arena.frames context.handle
      = machine.arena.frames := by
  obtain ⟨_, _, hframes, hs⟩ := Context.chain_eq_ok_iff.mp hlive
  obtain ⟨rfl, rfl⟩ := List.cons.inj hframes
  exact updateAt_self hs.frameAt?_eq (by rw [h])

/-- In a context with the standard functions, a successful evaluation adds to the table of its
frame the footprint of its term, in order and as written, and leaves nothing pending; a failed
one adds a first part of the footprint. So over a session a name keeps the first value that it
was bound to, and a call for a local scope changes no frame that was there before. -/
theorem evaluate_writes_footprint :
    (∀ (width : WidthSetting) (term : Term) (context : Context) (machine : Machine)
        (frame : Frame) (outer : List Frame),
      context.chain machine.arena = .ok (frame :: outer) → StandardChain (frame :: outer) →
      (∀ result after, evaluate width term context machine = .ok result after →
        result.actions = [] ∧
        context.frame after.arena
          = .ok { frame with values := frame.values ++ footprint term }) ∧
      (∀ fault after, evaluate width term context machine = .error fault after →
        ∃ written, written <+: footprint term ∧
          context.frame after.arena = .ok { frame with values := frame.values ++ written })) ∧
    (∀ (earlier later : List Session.Input) (name : String) (value : Term),
      (Session.globalValues (Session.run earlier Interpreter.start)).lookup name = some value →
      (Session.globalValues (Session.run (earlier ++ later) Interpreter.start)).lookup name
        = some value) ∧
    (∀ (width : WidthSetting) (arguments : List Term) (context : Context) (machine : Machine)
        (frame : Frame) (outer : List Frame),
      context.chain machine.arena = .ok (frame :: outer) → StandardChain (frame :: outer) →
      (Session.ending (evaluate width (.list (.identifier "eval" :: arguments)) context
        machine)).arena.frames = machine.arena.frames) := by
  refine ⟨?_, ?_, ?_⟩
  · intro width term context machine frame outer hlive hstandard
    obtain ⟨outcome, final, hrun, hwrites, hframe, -⟩ := run_standard width term hlive hstandard
    constructor
    · intro result after h
      obtain ⟨hanswer, hactions, rfl⟩ := Outcome.result_eq_ok (hrun.symm.trans h)
      rw [hwrites.of_ok _ hanswer] at hframe
      exact ⟨hactions, hframe⟩
    · intro fault after h
      obtain ⟨stop, hanswer, -, rfl⟩ := Outcome.result_eq_error (hrun.symm.trans h)
      obtain ⟨written, hwritten, hvalues⟩ := hwrites.of_error stop hanswer
      rw [hvalues] at hframe
      exact ⟨written, hwritten, hframe⟩
  · intro earlier later name value h
    rw [Session.run_append]
    have hrest := Session.atRest_run Session.atRest_start earlier
    exact (Session.globalValues_prefix_run hrest later).lookup_eq_some h
  · intro width arguments context machine frame outer hlive hstandard
    obtain ⟨outcome, final, hrun, hwrites, -, hframes⟩ :=
      run_standard width (.list (.identifier "eval" :: arguments)) hlive hstandard
    rw [footprint_other (by decide)] at hwrites
    have hending : Session.ending (outcome.result final) = final := by
      unfold Outcome.result
      cases outcome.answer <;> rfl
    rw [hrun, hending, hframes]
    exact updateAt_of_values_eq hlive hwrites.values_eq_of_nil

/-- In a frame below the global one, a sum binds the names of its operands as written; a sum
whose second operand is no number has bound the first two names by the time it fails. -/
theorem evaluate_writes_footprint_child :
    let root := Session.globalFrame [("x", .number 1)]
    let child : Frame := { values := [("x", .string "s")], parent := some 0, generation := 2 }
    let machine : Machine := { arena := { frames := [child, root], nextGeneration := 3 } }
    let context : Context := ⟨1, 2⟩
    let bind (name : String) (value : Term) : Term :=
      .list [.identifier "let", .identifier name, value]
    let good : Term := .list [.identifier "+", bind "a" (.number 1),
      .list [.identifier "-", .number 9, bind "b" (.number 2)]]
    let bad : Term := .list [.identifier "+", bind "a" (.number 1), bind "b" (.list []),
      bind "c" (.number 3)]
    context.chain machine.arena = .ok [child, root] ∧ StandardChain [child, root] ∧
    (∃ after, evaluate (.ok ⟨8, by decide⟩) good context machine = .ok ⟨.number 8, []⟩ after ∧
      context.frame after.arena = .ok { child with
        values := [("x", .string "s"), ("a", .number 1), ("b", .number 2)] }) ∧
    (∃ after written, evaluate (.ok ⟨8, by decide⟩) bad context machine
        = .error (.language .operandNotANumber) after ∧
      written <+: [("a", .number 1), ("b", .list []), ("c", .number 3)] ∧
      context.frame after.arena = .ok { child with
        values := ("x", .string "s") :: written }) := by
  intro root child machine context bind good bad
  have hlive : context.chain machine.arena = .ok [child, root] := rfl
  have hstandard : StandardChain [child, root] := ⟨[child], root, rfl, by decide, rfl⟩
  have hgood : ∃ after, evaluate (.ok ⟨8, by decide⟩) good context machine
    = .ok ⟨.number 8, []⟩ after := ⟨_, rfl⟩
  have hbad : ∃ after, evaluate (.ok ⟨8, by decide⟩) bad context machine
    = .error (.language .operandNotANumber) after := ⟨_, rfl⟩
  obtain ⟨after, hgood⟩ := hgood
  obtain ⟨after', hbad⟩ := hbad
  have hok := (evaluate_writes_footprint.1 _ _ _ _ _ _ hlive hstandard).1 _ _ hgood
  obtain ⟨written, hwritten, hframe⟩ :=
    (evaluate_writes_footprint.1 _ _ _ _ _ _ hlive hstandard).2 _ _ hbad
  exact ⟨hlive, hstandard, ⟨after, hgood, hok.2⟩, after', written, hbad, hwritten, hframe⟩

end Evaluation

end ScopeLisp
