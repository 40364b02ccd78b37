import ScopeLisp.Proofs.Locality.Lockstep

/-!
# Evaluation depends on the names in the term alone

The evaluator looks up a name only when the name is written in the term: values that are found are
passed on and never evaluated, and nothing but its own arguments is evaluated by a function. So two
contexts that the names of a term do not tell apart give the same answer to the term, take the same
new bindings, and are asked alike to quit. Nothing is assumed about the functions of the contexts,
of which there may be any, nor about what else they bind, nor about where their frames lie.

* `evaluate_inStep`: the evaluations of one term at two sites, by induction over the term.
* `evaluate_depends_on_names`: the same, for two live contexts.
-/

namespace ScopeLisp.Evaluation

variable {names : List String} {here there : Site}

/-! ## Arguments as written -/

theorem nameOf_inStep {t : Term} (run : Context → Eval Yield) (h : t.names ⊆ names) :
    InStep (fun name => name ∈ names) here there (nameOf ⟨t, run⟩) (nameOf ⟨t, run⟩) := by
  cases t with
  | identifier name =>
    have hname : name ∈ names := h (by simp [Term.names])
    exact .pure hname
  | _ => exact .throw _

theorem bindLocals_inStep {here there : Site} (width : WidthSetting) (pairs : List Term)
    (h : Term.namesAll pairs ⊆ names) (halike : Alike names here there) :
    InStep (fun _ => True) here there (bindLocals here.context (operands width pairs))
      (bindLocals there.context (operands width pairs)) := by
  match pairs with
  | [] => exact .pure trivial
  | [name] =>
    have hname : name.names ⊆ names := fun x hx => h (by simp [Term.namesAll, hx])
    simp only [operands, bindLocals]
    exact (nameOf_inStep _ hname).bind fun _ _ _ _ _ _ _ _ => .throw _
  | name :: value :: rest =>
    have hname : name.names ⊆ names := fun x hx => h (by simp [Term.namesAll, hx])
    have hrest : Term.namesAll rest ⊆ names := fun x hx => h (by simp [Term.namesAll, hx])
    simp only [operands, bindLocals]
    refine (nameOf_inStep _ hname).bind fun text _ _ _ _ hhere hthere htext => ?_
    have hmoved := halike.moved hhere hthere
    refine (InStep.setValue hmoved htext value).bind fun _ _ _ _ _ hhere' hthere' _ => ?_
    exact bindLocals_inStep width rest hrest (hmoved.moved hhere' hthere')

theorem pairActions_inStep {here there : Site} (width : WidthSetting) (pairs : List Term)
    (h : Term.namesAll pairs ⊆ names) :
    InStep (Named names) here there (pairActions (operands width pairs))
      (pairActions (operands width pairs)) := by
  match pairs with
  | [] => exact .pure .nil
  | [name] =>
    have hname : name.names ⊆ names := fun x hx => h (by simp [Term.namesAll, hx])
    simp only [operands, pairActions]
    exact (nameOf_inStep _ hname).bind fun _ _ _ _ _ _ _ _ => .throw _
  | name :: value :: rest =>
    have hname : name.names ⊆ names := fun x hx => h (by simp [Term.namesAll, hx])
    have hrest : Term.namesAll rest ⊆ names := fun x hx => h (by simp [Term.namesAll, hx])
    simp only [operands, pairActions]
    refine (nameOf_inStep _ hname).bind fun text _ _ _ _ _ _ htext => ?_
    refine (pairActions_inStep width rest hrest).bind fun actions _ _ _ _ _ _ hactions => ?_
    exact .pure (.cons htext value hactions)

theorem bind_inStep (width : WidthSetting) (arguments : List Term)
    (h : Term.namesAll arguments ⊆ names) :
    InStep (fun result => Named names result.actions) here there
      (runPrimitive width here.context (operands width arguments) .bind)
      (runPrimitive width there.context (operands width arguments) .bind) := by
  match arguments with
  | [] => exact .throw _
  | [name] =>
    have hname : name.names ⊆ names := fun x hx => h (by simp [Term.namesAll, hx])
    simp only [operands, runPrimitive]
    exact (nameOf_inStep _ hname).bind fun _ _ _ _ _ _ _ _ => .throw _
  | name :: value :: rest =>
    have hname : name.names ⊆ names := fun x hx => h (by simp [Term.namesAll, hx])
    simp only [operands, runPrimitive]
    refine (nameOf_inStep _ hname).bind fun text _ _ _ _ _ _ htext => ?_
    exact .pure (.cons htext value .nil)

/-! ## Arguments that are evaluated -/

/-- The evaluations of the term at two sites that are alike go in lockstep. -/
def EvaluatesInStep (names : List String) (width : WidthSetting) (term : Term) : Prop :=
  ∀ here there : Site, Alike names here there →
    InStep (fun result => result.actions = []) here there (evaluate width term here.context)
      (evaluate width term there.context)

section Operands

variable {width : WidthSetting} {terms : List Term}
  (ih : ∀ t ∈ terms, EvaluatesInStep names width t)

include ih

theorem fold_inStep (op : Int → Int → Int) (soFar : Yield) (hsoFar : Named names soFar.actions)
    (halike : Alike names here there) :
    InStep (fun result => Named names result.actions) here there
      (fold width op here.context soFar (operands width terms))
      (fold width op there.context soFar (operands width terms)) := by
  induction terms generalizing here there soFar with
  | nil => exact .pure hsoFar
  | cons operand rest ihrest =>
    simp only [operands, fold]
    have hfirst := ih operand List.mem_cons_self here there halike
    refine hfirst.bind fun next _ _ _ _ hhere hthere hnext => ?_
    have hmoved := halike.moved hhere hthere
    refine (InStep.ofExcept (combine width op soFar.term next.term)).bind
      fun term _ _ _ _ hhere' hthere' _ => ?_
    refine ihrest (fun t ht => ih t (List.mem_cons_of_mem _ ht)) _ ?_
      (hmoved.moved hhere' hthere')
    rw [hnext, List.append_nil]
    exact hsoFar

theorem subtract_inStep (halike : Alike names here there) :
    InStep (fun result => Named names result.actions) here there
      (runPrimitive width here.context (operands width terms) .subtract)
      (runPrimitive width there.context (operands width terms) .subtract) := by
  cases terms with
  | nil => exact .throw _
  | cons first rest =>
    simp only [operands, runPrimitive]
    have hfirst := ih first List.mem_cons_self here there halike
    refine hfirst.bind fun value _ _ _ _ hhere hthere hvalue => ?_
    refine fold_inStep (fun t ht => ih t (List.mem_cons_of_mem _ ht)) _ value ?_
      (halike.moved hhere hthere)
    rw [hvalue]
    exact .nil

theorem evaluateEach_inStep (halike : Alike names here there) :
    InStep (fun result => Named names result.2) here there
      (evaluateEach here.context (operands width terms))
      (evaluateEach there.context (operands width terms)) := by
  induction terms generalizing here there with
  | nil => exact .pure .nil
  | cons operand rest ihrest =>
    simp only [operands, evaluateEach]
    have hfirst := ih operand List.mem_cons_self here there halike
    refine hfirst.bind fun first _ _ _ _ hhere hthere hvalue => ?_
    have hrest := ihrest (fun t ht => ih t (List.mem_cons_of_mem _ ht))
      (halike.moved hhere hthere)
    refine hrest.bind fun later _ _ _ _ _ _ hlater => ?_
    apply InStep.pure
    rw [hvalue]
    exact hlater

theorem evaluateLocally_inStep (hnames : Term.namesAll terms ⊆ names)
    (halike : Alike names here there) :
    InStep (fun result => Named names result.actions) here there
      (evaluateLocally here.context (operands width terms))
      (evaluateLocally there.context (operands width terms)) := by
  unfold evaluateLocally
  split
  · exact .throw _
  · cases terms with
    | nil => exact .throw _
    | cons body pairs =>
      have hpairs : Term.namesAll pairs ⊆ names := fun x hx => hnames (by simp [Term.namesAll, hx])
      simp only [operands]
      apply InStep.inChild
      refine (bindLocals_inStep width pairs hpairs halike.inner).bind
        fun _ _ _ _ _ hhere hthere _ => ?_
      have hmoved := halike.inner.moved hhere hthere
      have hbody := ih body List.mem_cons_self _ _ hmoved
      have hsettled := InStep.settled hmoved (hbody.mono fun result hresult => hresult ▸ .nil)
      exact hsettled.mono fun result hresult => hresult ▸ .nil

/-! ## Calls -/

theorem runPrimitive_inStep (hnames : Term.namesAll terms ⊆ names)
    (halike : Alike names here there) (body : Primitive) :
    InStep (fun result => Named names result.actions) here there
      (runPrimitive width here.context (operands width terms) body)
      (runPrimitive width there.context (operands width terms) body) := by
  cases body with
  | add => exact fold_inStep ih _ _ .nil halike
  | multiply => exact fold_inStep ih _ _ .nil halike
  | subtract => exact subtract_inStep ih halike
  | bind => exact bind_inStep width terms hnames
  | evaluate => exact evaluateLocally_inStep ih hnames halike
  | quit =>
    refine ⟨[], true, { here.machine with quit := true }, { there.machine with quit := true },
      ⟨?_, (Bool.or_true _).symm⟩, ⟨?_, (Bool.or_true _).symm⟩, .inl ⟨⟨.nil, []⟩, .nil, rfl, rfl⟩⟩
    · rw [List.append_nil]
      exact .refl here.shows
    · rw [List.append_nil]
      exact .refl there.shows
  | collect => exact .pure .nil
  | bindAll =>
    refine (pairActions_inStep width terms hnames).bind fun actions _ _ _ _ _ _ hactions => ?_
    exact .pure hactions
  | sequence =>
    refine (evaluateEach_inStep ih halike).bind fun result _ _ _ _ _ _ hresult => ?_
    exact .pure hresult

theorem apply_inStep (hnames : Term.namesAll terms ⊆ names) (halike : Alike names here there)
    (callee : Callee) :
    InStep (fun result => Named names result.actions) here there
      (apply width callee here.context (operands width terms))
      (apply width callee there.context (operands width terms)) := by
  unfold apply
  split
  · split
    · exact runPrimitive_inStep ih hnames halike _
    · exact .throw _
  · exact .throw _
  · exact .throw _

theorem call_inStep {head : Term} (hhead : head.names ⊆ names)
    (hnames : Term.namesAll terms ⊆ names) (halike : Alike names here there) :
    InStep (fun result => result.actions = []) here there
      (call width head (operands width terms) here.context)
      (call width head (operands width terms) there.context) := by
  cases head with
  | identifier name =>
    have hname : name ∈ names := hhead (by simp [Term.names])
    have hlook : InStep (fun _ => True) here there
        (Eval.look fun arena => here.context.findFunction arena name)
        (Eval.look fun arena => there.context.findFunction arena name) := by
      refine InStep.of_ok (nearestFunction (here.frame :: here.outer) name) trivial ?_ ?_
      · rw [Eval.look, here.shows.findFunction_eq]
      · rw [Eval.look, there.shows.findFunction_eq, halike.function_eq name hname]
    refine hlook.bind fun found _ _ _ _ hhere hthere _ => ?_
    have hmoved := halike.moved hhere hthere
    cases found with
    | none => exact .throw _
    | some fn =>
      refine (InStep.note _ _ _ _).bind fun _ _ _ _ _ hhere' hthere' _ => ?_
      have hmoved' := hmoved.moved hhere' hthere'
      exact InStep.settled hmoved' (apply_inStep ih hnames hmoved' (.function fn))
  | _ => exact .throw _

end Operands

/-! ## Terms -/

theorem evaluateName_inStep (halike : Alike names here there) {name : String}
    (hname : name ∈ names) :
    InStep (fun result => result.actions = []) here there (evaluateName name here.context)
      (evaluateName name there.context) := by
  have hlook : InStep (fun _ => True) here there
      (Eval.look fun arena => here.context.findValue arena name)
      (Eval.look fun arena => there.context.findValue arena name) := by
    refine InStep.of_ok (nearestValue (here.frame :: here.outer) name) trivial ?_ ?_
    · rw [Eval.look, here.shows.findValue_eq]
    · rw [Eval.look, there.shows.findValue_eq, halike.value_eq name hname]
  refine hlook.bind fun found _ _ _ _ _ _ _ => ?_
  cases found with
  | none => exact .pure rfl
  | some value => exact .pure rfl

/-- Every term whose names are among the given ones: by induction over terms. -/
theorem evaluate_inStep (width : WidthSetting) (term : Term) (h : term.names ⊆ names) :
    EvaluatesInStep names width term := by
  induction term using Term.induct with
  | nil | boolean | number | string =>
    intro here there _
    simp only [evaluate]
    exact .pure rfl
  | foreign value =>
    intro here there _
    simp only [evaluate]
    exact .throw _
  | identifier name =>
    intro here there halike
    simp only [evaluate]
    exact evaluateName_inStep halike (h (by simp [Term.names]))
  | list terms ih =>
    intro here there halike
    cases terms with
    | nil =>
      simp only [evaluate]
      exact .pure rfl
    | cons head arguments =>
      rw [Term.names, Term.namesAll, List.append_subset] at h
      simp only [evaluate]
      refine call_inStep (fun t ht => ?_) h.1 h.2 halike
      have hsub : t.names ⊆ names := List.Subset.trans (Term.names_subset_of_mem ht) h.2
      exact ih t (List.mem_cons_of_mem _ ht) hsub

/-! ## Live contexts -/

/-- Let two live contexts, of one arena or of two, agree on every name in a term: on the nearest
value, on the nearest function, and on whether the name is bound in the frame of the context itself.
Then the evaluations of the term in the two contexts have the same value or the same error, they add
the same bindings in the same order to the frames of the contexts, and both or neither ask to
quit. -/
theorem evaluate_depends_on_names (width : WidthSetting) (term : Term) {context other : Context}
    {machine machine' : Machine} {frame frame' : Frame} {outer outer' : List Frame}
    (hlive : context.chain machine.arena = .ok (frame :: outer))
    (hlive' : other.chain machine'.arena = .ok (frame' :: outer'))
    (hvalue : ∀ name ∈ term.names,
      context.findValue machine.arena name = other.findValue machine'.arena name)
    (hfunction : ∀ name ∈ term.names,
      context.findFunction machine.arena name = other.findFunction machine'.arena name)
    (hown : ∀ name ∈ term.names, frame.values.binds name = frame'.values.binds name) :
    let run := evaluate width term context machine
    let run' := evaluate width term other machine'
    Session.answer run = Session.answer run' ∧
    ∃ (added : Table Term) (asked : Bool),
      context.frame (Session.ending run).arena
        = .ok { frame with values := frame.values ++ added } ∧
      other.frame (Session.ending run').arena
        = .ok { frame' with values := frame'.values ++ added } ∧
      (Session.ending run).quit = (machine.quit || asked) ∧
      (Session.ending run').quit = (machine'.quit || asked) := by
  obtain ⟨_, _, hframes, hs⟩ := Context.chain_eq_ok_iff.mp hlive
  obtain ⟨rfl, rfl⟩ := List.cons.inj hframes
  obtain ⟨_, _, hframes', hs'⟩ := Context.chain_eq_ok_iff.mp hlive'
  obtain ⟨rfl, rfl⟩ := List.cons.inj hframes'
  let here : Site := ⟨context, machine, frame, outer, hs⟩
  let there : Site := ⟨other, machine', frame', outer', hs'⟩
  have halike : Alike term.names here there := {
    value_eq := fun name hname => by
      have hfound := hvalue name hname
      rw [hs.findValue_eq, hs'.findValue_eq] at hfound
      exact Except.ok.inj hfound
    function_eq := fun name hname => by
      have hfound := hfunction name hname
      rw [hs.findFunction_eq, hs'.findFunction_eq] at hfound
      exact Except.ok.inj hfound
    own_iff := fun name hname => by
      have hbinds := hown name hname
      rw [← Table.binds_iff, ← Table.binds_iff]
      exact Bool.eq_iff_iff.mp hbinds }
  have hstep := evaluate_inStep width term (List.Subset.refl _) here there halike
  obtain ⟨hanswer, added, asked, hhere, hthere⟩ := hstep.ends
  exact ⟨hanswer, added, asked, hhere.frame_eq, hthere.frame_eq, hhere.quit_eq, hthere.quit_eq⟩

/-- A frame below the global one, and a frame two levels further in within another arena, which
hold other bindings besides. The term reads `x`, opens a scope, binds `y` and asks to quit before it
fails. What the first evaluation binds and asks for is known of the second. -/
theorem evaluate_depends_on_names_apart :
    let root : Frame :=
      { values := [("x", .number 3)], functions := standardFunctions, parent := none,
        generation := 1 }
    let child : Frame := { parent := some 0, generation := 2 }
    let machine : Machine := { arena := { frames := [child, root], nextGeneration := 3 } }
    let base : Frame :=
      { functions := ("f", .userDefined none) :: standardFunctions, parent := none,
        generation := 1 }
    let middle : Frame :=
      { values := [("x", .number 3), ("z", .nil)], parent := some 0, generation := 5 }
    let top : Frame := { values := [("v", .number 9)], parent := some 1, generation := 7 }
    let machine' : Machine := { arena := { frames := [top, middle, base], nextGeneration := 8 } }
    let term : Term := .list [.identifier "+", .identifier "x",
      .list [.identifier "eval", .list [.identifier "+", .identifier "x", .identifier "w"],
        .identifier "w", .number 5],
      .list [.identifier "let", .identifier "y", .number 2], .list [.identifier "quit"]]
    let run := evaluate (.ok ⟨8, by decide⟩) term ⟨1, 2⟩ machine
    let run' := evaluate (.ok ⟨8, by decide⟩) term ⟨2, 7⟩ machine'
    Session.answer run = .error (.language .operandNotANumber) ∧
    Session.answer run' = .error (.language .operandNotANumber) ∧
    Context.frame ⟨2, 7⟩ (Session.ending run').arena
      = .ok { top with values := [("v", .number 9), ("y", .number 2)] } ∧
    (Session.ending run').quit = true := by
  intro root child machine base middle top machine' term run run'
  have hlive : Context.chain ⟨1, 2⟩ machine.arena = .ok [child, root] := rfl
  have hlive' : Context.chain ⟨2, 7⟩ machine'.arena = .ok [top, middle, base] := rfl
  have hnames : ∀ name ∈ term.names, name ∈ ["+", "x", "eval", "w", "let", "y", "quit"] := by
    decide
  have hagree : ∀ name ∈ ["+", "x", "eval", "w", "let", "y", "quit"],
      Context.findValue ⟨1, 2⟩ machine.arena name = Context.findValue ⟨2, 7⟩ machine'.arena name ∧
      Context.findFunction ⟨1, 2⟩ machine.arena name
        = Context.findFunction ⟨2, 7⟩ machine'.arena name ∧
      child.values.binds name = top.values.binds name := by
    intro name hname
    simp only [List.mem_cons, List.not_mem_nil, or_false] at hname
    rcases hname with rfl | rfl | rfl | rfl | rfl | rfl | rfl
    all_goals exact ⟨rfl, rfl, rfl⟩
  obtain ⟨hanswer, added, asked, hframe, hframe', hquit, hquit'⟩ :=
    evaluate_depends_on_names (.ok ⟨8, by decide⟩) term hlive hlive'
      (fun name h => (hagree name (hnames name h)).1)
      (fun name h => (hagree name (hnames name h)).2.1)
      (fun name h => (hagree name (hnames name h)).2.2)
  have hleft : Context.frame ⟨1, 2⟩ (Session.ending run).arena
    = .ok { child with values := [("y", .number 2)] } := rfl
  have hadded : added = [("y", .number 2)] :=
    congrArg Frame.values (Except.ok.inj (hframe.symm.trans hleft))
  have hasked : asked = true := hquit.symm
  subst hadded hasked
  exact ⟨rfl, hanswer.symm, hframe', hquit'⟩

end ScopeLisp.Evaluation
