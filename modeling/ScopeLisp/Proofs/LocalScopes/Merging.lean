import ScopeLisp.Proofs.LocalScopes.Calls
import ScopeLisp.Proofs.Locality.Independence

/-!
# Nested local scopes can be merged

Two chains of scopes may differ in how many scopes they have and in which scope a name is bound, and
still be interchangeable for a term: every name has the same nearest value in both, and the names
that the term may bind are bound in both nearest scopes or in neither. A binding of such a name
succeeds in both or fails in both, and the chains stay interchangeable after it. So a term does the
same under both of them, whatever it binds, opens or fails at.

Two scopes with disjoint names, one within the other, are interchangeable with a single scope that
has the bindings of both, except for terms that bind a name of the outer one: there the inner scope
has room for the name, and the single scope has not.

* `Interchangeable`: it is kept by a binding (`Interchangeable.extend`) and by local scopes
  (`Interchangeable.push`).
* `Scopes.evaluates_alike`: a term under interchangeable scopes, by induction.
* `Scopes.interchangeable_merged`: two nested scopes and the merged one.
* `Evaluation.nested_scopes_merge`: two nested calls and the call with the bindings of both.
-/

namespace ScopeLisp

theorem Term.letNames_subset_of_mem {t : Term} {terms : List Term} (h : t ∈ terms) :
    t.letNames ⊆ (Term.list terms).letNames := by
  intro name hname
  rw [letNames, List.mem_append]
  exact .inr (mem_letNamesAll.mpr ⟨t, h, hname⟩)

namespace Scopes

variable {lets : List String} {near near' : Scope} {outer outer' : List Scope}

/-! ## Interchangeable scopes -/

/-- The same values are found, and the names in the list are bound in both nearest scopes or in
neither. -/
structure Interchangeable (lets : List String) (near : Scope) (outer : List Scope) (near' : Scope)
    (outer' : List Scope) : Prop where
  standard_left : Standard (near :: outer)
  standard_right : Standard (near' :: outer')
  value_eq : ∀ name, findValue (near :: outer) name = findValue (near' :: outer') name
  own_iff : ∀ name ∈ lets, name ∈ near.values.map Prod.fst ↔ name ∈ near'.values.map Prod.fst

namespace Interchangeable

theorem push (h : Interchangeable lets near outer near' outer') (locals : Table Term) :
    Interchangeable lets { values := locals } (near :: outer) { values := locals }
      (near' :: outer') where
  standard_left := h.standard_left.push locals
  standard_right := h.standard_right.push locals
  value_eq := by
    intro name
    rw [findValue_cons, h.value_eq, ← findValue_cons]
  own_iff := fun _ _ => Iff.rfl

/-- One more binding, at the end of both nearest scopes, of a name that neither of them has. -/
theorem concat (h : Interchangeable lets near outer near' outer') {name : String}
    (hnear : name ∉ near.values.map Prod.fst) (hnear' : name ∉ near'.values.map Prod.fst)
    (value : Term) :
    Interchangeable lets { near with values := near.values ++ [(name, value)] } outer
      { near' with values := near'.values ++ [(name, value)] } outer' where
  standard_left := h.standard_left.rebind _
  standard_right := h.standard_right.rebind _
  value_eq := by
    intro asked
    rw [findValue_cons, findValue_cons, List.lookup_append, List.lookup_append]
    by_cases hname : asked = name
    · -- the new binding is found, since no other one is before it
      subst hname
      rw [lookup_eq_none_iff_mem.mpr hnear, lookup_eq_none_iff_mem.mpr hnear']
      simp only [List.lookup_cons_self, Option.none_or, Option.some_or]
    · have hother : List.lookup asked [(name, value)] = none := by
        rw [lookup_eq_none_iff_mem, List.map_singleton, List.mem_singleton]
        exact hname
      rw [hother, Option.or_none, Option.or_none, ← findValue_cons, ← findValue_cons]
      exact h.value_eq asked
  own_iff := by
    intro other hother
    rw [List.map_append, List.map_append, List.mem_append, List.mem_append, h.own_iff other hother]

/-- A name in the list can be bound in both nearest scopes or in neither. -/
theorem extend (h : Interchangeable lets near outer near' outer') {name : String}
    (hname : name ∈ lets) (value : Term) :
    (∃ stop, Scopes.extend near.values (.identifier name) value = .error stop ∧
      Scopes.extend near'.values (.identifier name) value = .error stop) ∨
    (∃ values values', Scopes.extend near.values (.identifier name) value = .ok values ∧
      Scopes.extend near'.values (.identifier name) value = .ok values' ∧
      Interchangeable lets { near with values } outer { near' with values := values' } outer') := by
  rw [Scopes.extend, Scopes.extend]
  by_cases hnear : name ∈ near.values.map Prod.fst
  · rw [if_pos hnear, if_pos ((h.own_iff name hname).mp hnear)]
    exact .inl ⟨_, rfl, rfl⟩
  · have hnear' : name ∉ near'.values.map Prod.fst :=
      fun hmem => hnear ((h.own_iff name hname).mpr hmem)
    rw [if_neg hnear, if_neg hnear']
    exact .inr ⟨_, _, rfl, rfl, h.concat hnear hnear' value⟩

end Interchangeable

/-! ## Outcomes under interchangeable scopes -/

/-- The same answer and the same wish to quit, and the scopes are still interchangeable with the
tables that are left behind. -/
structure Corresponds (lets : List String) (near : Scope) (outer : List Scope) (near' : Scope)
    (outer' : List Scope) (outcome outcome' : Outcome) : Prop where
  answer_eq : outcome.answer = outcome'.answer
  quit_eq : outcome.quit = outcome'.quit
  kept : Interchangeable lets { near with values := outcome.values } outer
    { near' with values := outcome'.values } outer'

namespace Corresponds

theorem still (h : Interchangeable lets near outer near' outer') (answer : Except Stop Term)
    (quit : Bool) :
    Corresponds lets near outer near' outer' ⟨answer, near.values, quit⟩
      ⟨answer, near'.values, quit⟩ :=
  ⟨rfl, rfl, h⟩

/-- What follows starts under the scopes that the first part has left. -/
theorem andThen {first first' : Outcome} {next next' : Term → Table Term → Bool → Outcome}
    (h : Corresponds lets near outer near' outer' first first')
    (hnext : ∀ value quit values values',
      Interchangeable lets { near with values } outer { near' with values := values' } outer' →
      Corresponds lets { near with values } outer { near' with values := values' } outer'
        (next value values quit) (next' value values' quit)) :
    Corresponds lets near outer near' outer' (first.andThen next) (first'.andThen next') := by
  obtain ⟨hanswer, hquit, hkept⟩ := h
  rw [Outcome.andThen, Outcome.andThen, ← hanswer, ← hquit]
  cases first.answer with
  | error stop => exact ⟨rfl, rfl, hkept⟩
  | ok value =>
    obtain ⟨hanswer', hquit', hkept'⟩ := hnext value first.quit _ _ hkept
    exact ⟨hanswer', hquit', hkept'⟩

end Corresponds

/-- The term has corresponding outcomes under interchangeable scopes. -/
def EvaluatesAlike (width : WidthSetting) (lets : List String) (term : Term) : Prop :=
  ∀ (near : Scope) (outer : List Scope) (near' : Scope) (outer' : List Scope) (quit : Bool),
    Interchangeable lets near outer near' outer' →
    Corresponds lets near outer near' outer' (evaluate width term near outer quit)
      (evaluate width term near' outer' quit)

/-! ## Calls -/

section Calls

variable {width : WidthSetting} {arguments : List Term}

theorem accumulate_alike (ih : ∀ t ∈ arguments, EvaluatesAlike width lets t)
    (op : Int → Int → Int) (value : Term) (quit : Bool)
    (h : Interchangeable lets near outer near' outer') :
    Corresponds lets near outer near' outer'
      (accumulate width arguments op value near outer quit)
      (accumulate width arguments op value near' outer' quit) := by
  induction arguments generalizing value near near' quit with
  | nil =>
    rw [accumulate, accumulate]
    exact .still h _ _
  | cons operand rest ihrest =>
    rw [accumulate, accumulate]
    have hfirst := ih operand List.mem_cons_self near outer near' outer' quit h
    refine hfirst.andThen fun next quit values values' hkept => ?_
    cases calculate width op value next with
    | error stop => exact .still hkept _ _
    | ok value => exact ihrest (fun t ht => ih t (List.mem_cons_of_mem _ ht)) value quit hkept

theorem subtract_alike (ih : ∀ t ∈ arguments, EvaluatesAlike width lets t) (quit : Bool)
    (h : Interchangeable lets near outer near' outer') :
    Corresponds lets near outer near' outer'
      (evaluate width (.list (.identifier "-" :: arguments)) near outer quit)
      (evaluate width (.list (.identifier "-" :: arguments)) near' outer' quit) := by
  cases arguments with
  | nil =>
    rw [evaluate_subtract_nil (h.standard_left "-"), evaluate_subtract_nil (h.standard_right "-")]
    exact .still h _ _
  | cons first rest =>
    rw [evaluate_subtract_cons (h.standard_left "-"), evaluate_subtract_cons (h.standard_right "-")]
    have hfirst := ih first List.mem_cons_self near outer near' outer' quit h
    refine hfirst.andThen fun value quit values values' hkept => ?_
    exact accumulate_alike (fun t ht => ih t (List.mem_cons_of_mem _ ht)) _ value quit hkept

theorem bind_alike (hlets : Term.letName (.identifier "let" :: arguments) ⊆ lets) (quit : Bool)
    (h : Interchangeable lets near outer near' outer') :
    Corresponds lets near outer near' outer'
      (evaluate width (.list (.identifier "let" :: arguments)) near outer quit)
      (evaluate width (.list (.identifier "let" :: arguments)) near' outer' quit) := by
  by_cases hcount : arguments.length = 2
  · obtain ⟨bound, value, rfl⟩ := List.length_eq_two.mp hcount
    rw [evaluate_bind (h.standard_left "let"), evaluate_bind (h.standard_right "let")]
    by_cases hname : ∃ name, bound = .identifier name
    · obtain ⟨name, rfl⟩ := hname
      have hmem : name ∈ lets := hlets List.mem_cons_self
      rcases h.extend hmem value with
        ⟨stop, hnear, hnear'⟩ | ⟨values, values', hnear, hnear', hkept⟩
      · rw [hnear, hnear']
        exact .still h _ _
      · rw [hnear, hnear']
        exact ⟨rfl, rfl, hkept⟩
    · have hnot : ∀ name, bound ≠ .identifier name := fun name heq => hname ⟨name, heq⟩
      rw [extend_of_not_identifier hnot, extend_of_not_identifier hnot]
      exact .still h _ _
  · rw [evaluate_bind_miscount (h.standard_left "let") hcount,
      evaluate_bind_miscount (h.standard_right "let") hcount]
    exact .still h _ _

theorem local_alike (ih : ∀ t ∈ arguments, EvaluatesAlike width lets t) (quit : Bool)
    (h : Interchangeable lets near outer near' outer') :
    Corresponds lets near outer near' outer'
      (evaluate width (.list (.identifier "eval" :: arguments)) near outer quit)
      (evaluate width (.list (.identifier "eval" :: arguments)) near' outer' quit) := by
  cases arguments with
  | nil =>
    rw [evaluate_evaluate_nil (h.standard_left "eval"),
      evaluate_evaluate_nil (h.standard_right "eval")]
    exact .still h _ _
  | cons body pairs =>
    rw [evaluate_evaluate_cons (h.standard_left "eval"),
      evaluate_evaluate_cons (h.standard_right "eval")]
    split
    · exact .still h _ _
    · cases extendAll [] pairs with
      | error stop => exact .still h _ _
      | ok locals =>
        -- whatever the body binds is gone with its scope, so the scopes here are as before
        have hbody := ih body List.mem_cons_self _ _ _ _ quit (h.push locals)
        exact ⟨hbody.answer_eq, hbody.quit_eq, h⟩

theorem quit_alike (quit : Bool) (h : Interchangeable lets near outer near' outer') :
    Corresponds lets near outer near' outer'
      (evaluate width (.list (.identifier "quit" :: arguments)) near outer quit)
      (evaluate width (.list (.identifier "quit" :: arguments)) near' outer' quit) := by
  cases arguments with
  | nil =>
    rw [evaluate_quit (h.standard_left "quit"), evaluate_quit (h.standard_right "quit")]
    exact .still h _ _
  | cons first rest =>
    rw [evaluate_quit_cons (h.standard_left "quit"), evaluate_quit_cons (h.standard_right "quit")]
    exact .still h _ _

theorem call_alike (name : String) (ih : ∀ t ∈ arguments, EvaluatesAlike width lets t)
    (hlets : Term.letName (.identifier name :: arguments) ⊆ lets) (quit : Bool)
    (h : Interchangeable lets near outer near' outer') :
    Corresponds lets near outer near' outer'
      (evaluate width (.list (.identifier name :: arguments)) near outer quit)
      (evaluate width (.list (.identifier name :: arguments)) near' outer' quit) := by
  have hform := h.standard_left name
  have hform' := h.standard_right name
  rcases lookup_standardForms name with ⟨rfl, hf⟩ | ⟨rfl, hf⟩ | ⟨rfl, hf⟩ | ⟨rfl, hf⟩ | ⟨rfl, hf⟩ |
    ⟨rfl, hf⟩ | ⟨-, hf⟩
  · rw [evaluate_add (hform.trans hf), evaluate_add (hform'.trans hf)]
    exact accumulate_alike ih _ _ quit h
  · exact subtract_alike ih quit h
  · rw [evaluate_multiply (hform.trans hf), evaluate_multiply (hform'.trans hf)]
    exact accumulate_alike ih _ _ quit h
  · exact bind_alike hlets quit h
  · exact local_alike ih quit h
  · exact quit_alike quit h
  · rw [evaluate_unbound (hform.trans hf), evaluate_unbound (hform'.trans hf)]
    exact .still h _ _

end Calls

/-! ## Terms -/

/-- Every term whose binding calls are for names in the list, by induction. -/
theorem evaluates_alike (width : WidthSetting) (term : Term) (hlets : term.letNames ⊆ lets) :
    EvaluatesAlike width lets term := by
  induction term using Term.induct with
  | nil | boolean | number | string | foreign =>
    intro near outer near' outer' quit h
    rw [evaluate, evaluate]
    exact .still h _ _
  | identifier name =>
    intro near outer near' outer' quit h
    rw [evaluate, evaluate, h.value_eq]
    exact .still h _ _
  | list terms ih =>
    intro near outer near' outer' quit h
    cases terms with
    | nil =>
      rw [evaluate, evaluate]
      exact .still h _ _
    | cons head arguments =>
      by_cases hname : ∃ name, head = .identifier name
      · obtain ⟨name, rfl⟩ := hname
        refine call_alike name (fun t ht => ?_) ?_ quit h
        · have hmem := List.mem_cons_of_mem (.identifier name) ht
          exact ih t hmem (List.Subset.trans (Term.letNames_subset_of_mem hmem) hlets)
        · rw [Term.letNames] at hlets
          exact List.Subset.trans (List.subset_append_left _ _) hlets
      · have hhead : ∀ name, head ≠ .identifier name := fun name heq => hname ⟨name, heq⟩
        rw [evaluate_head hhead, evaluate_head hhead]
        exact .still h _ _

/-! ## Nested scopes -/

/-- A scope within another one is interchangeable with one scope that has the bindings of both, for
terms that bind no name of the outer one. -/
theorem interchangeable_merged {xs ys : Table Term} (hstandard : Standard outer)
    (hdisjoint : ∀ name ∈ xs.map Prod.fst, name ∉ ys.map Prod.fst)
    (hlets : ∀ name ∈ xs.map Prod.fst, name ∉ lets) :
    Interchangeable lets { values := ys } ({ values := xs } :: outer) { values := xs ++ ys }
      outer where
  standard_left := (hstandard.push xs).push ys
  standard_right := hstandard.push (xs ++ ys)
  value_eq := by
    intro name
    simp only [findValue_cons, List.lookup_append]
    by_cases hname : name ∈ xs.map Prod.fst
    · rw [lookup_eq_none_iff_mem.mpr (hdisjoint name hname), Option.none_or, Option.or_none]
    · rw [lookup_eq_none_iff_mem.mpr hname, Option.none_or, Option.none_or]
  own_iff := by
    intro name hname
    rw [List.map_append, List.mem_append]
    exact ⟨.inr, fun h => h.resolve_left fun hx => hlets name hx hname⟩

end Scopes

namespace Evaluation

open Scopes Session

/-- Let a live context have the standard functions at the end of its chain and no others, and let
the names of two lists of bindings be pairwise distinct. For a term in which no binding call is for
a name of the first list, the call with the bindings of the second list, within the call with those
of the first, has the same value or the same error as one call with the bindings of both lists. The
wish to quit is the same afterwards, and either way every frame is as it was before. -/
theorem nested_scopes_merge (width : WidthSetting) (e : Term) {xs ys : Table Term}
    {context : Context} {machine : Machine} {frame : Frame} {outer : List Frame}
    (hlive : context.chain machine.arena = .ok (frame :: outer))
    (hstandard : StandardChain (frame :: outer))
    (hdistinct : ((xs ++ ys).map Prod.fst).Nodup)
    (hlets : ∀ name ∈ xs.map Prod.fst, name ∉ e.letNames) :
    let nested := evaluate width (localCall (localCall e ys) xs) context machine
    let merged := evaluate width (localCall e (xs ++ ys)) context machine
    answer nested = answer merged ∧
    (ending nested).quit = (ending merged).quit ∧
    (ending nested).arena.frames = machine.arena.frames ∧
    (ending merged).arena.frames = machine.arena.frames := by
  intro nested merged
  have hscopes : Standard (frame.scope :: outer.map Frame.scope) := hstandard.standard
  have hparts := hdistinct
  rw [List.map_append, List.nodup_append] at hparts
  obtain ⟨hxs, hys, hapart⟩ := hparts
  have hdisjoint : ∀ name ∈ xs.map Prod.fst, name ∉ ys.map Prod.fst :=
    fun name hx hy => hapart name hx name hy rfl
  have halike := evaluates_alike width e (List.Subset.refl _) _ _ _ _ machine.quit
    (interchangeable_merged hscopes hdisjoint hlets)
  refine runs_coincide width hlive hstandard ?_ (evaluate_localCall hscopes hdistinct e _) rfl
  rw [evaluate_localCall hscopes hxs, evaluate_localCall (hscopes.push xs) hys, halike.answer_eq,
    halike.quit_eq]

/-- A sum binds `z` in the local scope and uses it in a further one, which has an `x` of its own. -/
theorem nested_scopes_merge_sum :
    let root := globalFrame [("x", .nil)]
    let child : Frame := { values := [("z", .string "s")], parent := some 0, generation := 2 }
    let machine : Machine := { arena := { frames := [child, root], nextGeneration := 3 } }
    let context : Context := ⟨1, 2⟩
    let xs : Table Term := [("x", .number 2)]
    let ys : Table Term := [("y", .number 3)]
    let e : Term := .list [.identifier "+", .list [.identifier "let", .identifier "z", .number 5],
      .identifier "x", localCall (.list [.identifier "*", .identifier "x", .identifier "z"])
        [("x", .number 10)], .identifier "y"]
    let nested := evaluate (.ok ⟨8, by decide⟩) (localCall (localCall e ys) xs) context machine
    context.chain machine.arena = .ok [child, root] ∧ StandardChain [child, root] ∧
    ((xs ++ ys).map Prod.fst).Nodup ∧ (∀ name ∈ xs.map Prod.fst, name ∉ e.letNames) ∧
    answer nested = .ok ⟨.number 60, []⟩ ∧ (ending nested).arena.frames = [child, root] := by
  intro root child machine context xs ys e nested
  have hlive : context.chain machine.arena = .ok [child, root] := rfl
  have hstandard : StandardChain [child, root] := ⟨[child], root, rfl, by decide, rfl⟩
  have hdistinct : ((xs ++ ys).map Prod.fst).Nodup := by decide
  have hlets : ∀ name ∈ xs.map Prod.fst, name ∉ e.letNames := by decide
  have hmerged : answer (evaluate (.ok ⟨8, by decide⟩) (localCall e (xs ++ ys)) context machine)
      = .ok ⟨.number 60, []⟩ := by decide +kernel
  obtain ⟨hanswer, -, hframes, -⟩ :=
    nested_scopes_merge (.ok ⟨8, by decide⟩) e hlive hstandard hdistinct hlets
  exact ⟨hlive, hstandard, hdistinct, hlets, hanswer.trans hmerged, hframes⟩

-- without the condition on binding calls: only the inner one of two scopes has room for another `x`
example :
    let binding : Term := .list [.identifier "let", .identifier "x", .number 2]
    let run (e : Term) := answer
      (evaluate (.ok ⟨8, by decide⟩) e Interpreter.globalContext Interpreter.start)
    run (localCall (localCall binding []) [("x", .number 1)]) = .ok ⟨.number 2, []⟩ ∧
    run (localCall binding [("x", .number 1)]) = .error (.language .duplicateValue) := by
  decide +kernel

end Evaluation

end ScopeLisp
