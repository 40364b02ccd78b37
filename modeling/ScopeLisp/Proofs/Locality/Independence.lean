import ScopeLisp.Proofs.Footprint
import ScopeLisp.Proofs.Locality.Evaluation

/-!
# Independent terms commute

Two terms are independent when no name that a binding call in one of them binds occurs in the other.
An evaluation binds names of its footprint only, and these are names of binding calls. So the
evaluation of one term moves its context to one that the names of the other do not tell apart from
where it started, and the other term is evaluated there as it would have been before. The bindings
of the two lie on disjoint names, hence it does not matter in which order they are added. That one
of the terms fails, or both, changes nothing in this: what a failed evaluation has bound is a first
part of its footprint.

* `Site.exists_adds`: what an evaluation adds, on a chain with the standard functions.
* `Alike.of_fresh`: bindings of other names go unnoticed.
* `independent_terms_commute`: two independent terms in either order.
-/

namespace ScopeLisp

open Session (answer ending)

/-! ## Names of binding calls -/

namespace Term

/-- The name that a list binds when it is a binding call: `let`, a name and a value. -/
def letName : List Term → List String
  | .identifier head :: arguments =>
    if head = "let" then (askedBinding arguments).map Prod.fst else []
  | _ => []

mutual

/-- The names that are bound by the binding calls in a term, at any depth and wherever they
stand. -/
def letNames : Term → List String
  | .list terms => letName terms ++ letNamesAll terms
  | _ => []

/-- The names that are bound by the binding calls in several terms. -/
def letNamesAll : List Term → List String
  | [] => []
  | t :: ts => letNames t ++ letNamesAll ts

end

theorem mem_letNamesAll {name : String} {terms : List Term} :
    name ∈ letNamesAll terms ↔ ∃ t ∈ terms, name ∈ t.letNames := by
  induction terms with
  | nil => simp [letNamesAll]
  | cons t ts ih => simp [letNamesAll, ih]

theorem letName_subset_namesAll (terms : List Term) : letName terms ⊆ namesAll terms := by
  intro name hname
  unfold letName at hname
  split at hname
  · rename_i head arguments
    split at hname
    · unfold askedBinding at hname
      split at hname
      · rename_i bound value
        have hbound : name = bound := by simpa using hname
        simp [namesAll, names, hbound]
      · cases hname
    · cases hname
  · cases hname

theorem letNames_subset_names (term : Term) : term.letNames ⊆ term.names := by
  induction term using Term.induct with
  | list terms ih =>
    intro name hname
    rw [letNames, List.mem_append] at hname
    rw [names]
    rcases hname with hname | hname
    · exact letName_subset_namesAll terms hname
    · obtain ⟨t, ht, hname⟩ := mem_letNamesAll.mp hname
      exact mem_namesAll.mpr ⟨t, ht, ih t ht hname⟩
  | _ => simp [letNames]

end Term

theorem mem_footprintAll {entry : String × Term} {terms : List Term} :
    entry ∈ footprintAll terms ↔ ∃ t ∈ terms, entry ∈ footprint t := by
  induction terms with
  | nil => simp [footprintAll]
  | cons t ts ih => simp [footprintAll, ih]

/-- What a term asks to bind are names of binding calls in it. -/
theorem footprint_subset_letNames (term : Term) :
    ∀ entry ∈ footprint term, entry.1 ∈ term.letNames := by
  induction term using Term.induct with
  | list terms ih =>
    intro entry hentry
    rw [Term.letNames, List.mem_append]
    unfold footprint at hentry
    split at hentry
    · rename_i head arguments heq
      cases heq
      split at hentry
      · obtain ⟨t, ht, hentry⟩ := mem_footprintAll.mp hentry
        have hmem := List.mem_cons_of_mem (.identifier head) ht
        exact .inr (Term.mem_letNamesAll.mpr ⟨t, hmem, ih t hmem entry hentry⟩)
      · split at hentry
        · rename_i hlet
          left
          rw [Term.letName, if_pos hlet]
          exact List.mem_map_of_mem hentry
        · cases hentry
    · cases hentry
  | _ =>
    intro entry hentry
    simp [footprint] at hentry

/-! ## What an evaluation adds -/

namespace Site

variable {site : Site} {added added' : Table Term} {asked asked' : Bool} {after : Machine}

theorem Adds.unique (h : site.Adds added asked after) (h' : site.Adds added' asked' after) :
    added = added' := by
  have hframe := Except.ok.inj (h.frame_eq.symm.trans h'.frame_eq)
  exact List.append_cancel_left (congrArg Frame.values hframe)

theorem alike_refl (names : List String) (site : Site) : Alike names site site :=
  ⟨fun _ _ => rfl, fun _ _ => rfl, fun _ _ => Iff.rfl⟩

/-- On a chain with the standard functions an evaluation, successful or not, adds a first part of
the footprint of its term. -/
theorem exists_adds (site : Site) (hstandard : StandardChain (site.frame :: site.outer))
    (width : WidthSetting) (term : Term) :
    ∃ added asked,
      site.Adds added asked (ending (Evaluation.evaluate width term site.context site.machine)) ∧
      ∀ name ∈ added.map Prod.fst, name ∈ term.letNames := by
  have hstep := Evaluation.evaluate_inStep width term (List.Subset.refl _) site site
    (site.alike_refl _)
  obtain ⟨-, added, asked, hadds, -⟩ := hstep.ends
  obtain ⟨outcome, after, hrun, hwrites, hframe, -⟩ :=
    Evaluation.run_standard width term site.shows.chain_eq hstandard
  obtain ⟨written, hwritten, hvalues⟩ := hwrites.exists_written
  have hending : ending (Evaluation.evaluate width term site.context site.machine) = after := by
    rw [hrun, Session.ending_result]
  have hadded : added = written := by
    have hframes := hadds.frame_eq
    rw [hending, hframe, hvalues] at hframes
    exact (List.append_cancel_left (congrArg Frame.values (Except.ok.inj hframes))).symm
  refine ⟨added, asked, hadds, fun name hname => ?_⟩
  obtain ⟨entry, hentry, rfl⟩ := List.mem_map.mp hname
  exact footprint_subset_letNames term entry (hwritten.subset (hadded ▸ hentry))

end Site

/-- A site is not told apart from where a run has moved it by names that the run has not bound. -/
theorem Alike.of_fresh {names : List String} {site : Site} {added : Table Term} {asked : Bool}
    {after : Machine} (h : site.Adds added asked after)
    (hfresh : ∀ name ∈ names, name ∉ added.map Prod.fst) : Alike names site (site.moved h) where
  value_eq := by
    intro name hname
    have hnone := lookup_eq_none_iff_mem.mpr (hfresh name hname)
    simp only [Site.moved, nearestValue_cons, List.lookup_append, hnone, Option.or_none]
  function_eq := fun _ _ => rfl
  own_iff := by
    intro name hname
    have hnone := hfresh name hname
    simp only [Site.moved, List.map_append, List.mem_append]
    tauto

/-- Additions on disjoint names can be looked up in either order. -/
theorem lookup_append_comm {table first second : Table Term}
    (h : ∀ name ∈ first.map Prod.fst, name ∉ second.map Prod.fst) (name : String) :
    (table ++ first ++ second).lookup name = (table ++ second ++ first).lookup name := by
  simp only [List.lookup_append, Option.or_assoc]
  by_cases hname : name ∈ first.map Prod.fst
  · rw [lookup_eq_none_iff_mem.mpr (h name hname), Option.or_none, Option.none_or]
  · rw [lookup_eq_none_iff_mem.mpr hname, Option.or_none, Option.none_or]

namespace Evaluation

/-! ## Either order -/

/-- Let a live context have the standard functions at the end of its chain and no others, and let
two terms be independent: no name that a binding call in one of them binds occurs in the other. In
whichever order the two are evaluated, each has the same value or the same error, the wish to quit
is the same in the end, and the frame of the context has the same bindings, though perhaps not in
the same order. -/
theorem independent_terms_commute (width : WidthSetting) (first second : Term) {context : Context}
    {machine : Machine} {frame : Frame} {outer : List Frame}
    (hlive : context.chain machine.arena = .ok (frame :: outer))
    (hstandard : StandardChain (frame :: outer))
    (hfirst : ∀ name ∈ first.letNames, name ∉ second.names)
    (hsecond : ∀ name ∈ second.letNames, name ∉ first.names) :
    let run (term : Term) (machine : Machine) := evaluate width term context machine
    let firstSecond := run second (ending (run first machine))
    let secondFirst := run first (ending (run second machine))
    answer (run first machine) = answer secondFirst ∧
    answer (run second machine) = answer firstSecond ∧
    (ending firstSecond).quit = (ending secondFirst).quit ∧
    ∃ values values' : Table Term,
      context.frame (ending firstSecond).arena = .ok { frame with values } ∧
      context.frame (ending secondFirst).arena = .ok { frame with values := values' } ∧
      values.Perm values' ∧ ∀ name, values.lookup name = values'.lookup name := by
  obtain ⟨_, _, hframes, hs⟩ := Context.chain_eq_ok_iff.mp hlive
  obtain ⟨rfl, rfl⟩ := List.cons.inj hframes
  let site : Site := ⟨context, machine, frame, outer, hs⟩
  obtain ⟨added₁, asked₁, hadds₁, hnames₁⟩ := site.exists_adds hstandard width first
  obtain ⟨added₂', asked₂', hadds₂', hnames₂⟩ := site.exists_adds hstandard width second
  -- the second term, where it starts and where the first term has led
  have halike₂ : Alike second.names site (site.moved hadds₁) :=
    .of_fresh hadds₁ fun name hname hbound => hfirst name (hnames₁ name hbound) hname
  obtain ⟨hanswer₂, added₂, asked₂, hadds₂, hthen₂⟩ :=
    (evaluate_inStep width second (List.Subset.refl _) _ _ halike₂).ends
  obtain rfl := hadds₂'.unique hadds₂
  -- the first term, where it starts and where the second term has led
  have halike₁ : Alike first.names site (site.moved hadds₂) :=
    .of_fresh hadds₂ fun name hname hbound => hsecond name (hnames₂ name hbound) hname
  obtain ⟨hanswer₁, added₁', asked₁', hadds₁', hthen₁⟩ :=
    (evaluate_inStep width first (List.Subset.refl _) _ _ halike₁).ends
  obtain rfl := hadds₁.unique hadds₁'
  have hquit : (ending (evaluate width second context
      (ending (evaluate width first context machine)))).quit
      = (ending (evaluate width first context
          (ending (evaluate width second context machine)))).quit := by
    calc _ = ((ending (evaluate width first context machine)).quit || asked₂) := hthen₂.quit_eq
      _ = ((machine.quit || asked₁') || asked₂) := by rw [hadds₁'.quit_eq]
      _ = ((machine.quit || asked₂) || asked₁') := Bool.or_right_comm ..
      _ = ((ending (evaluate width second context machine)).quit || asked₁') := by
          rw [hadds₂.quit_eq]
      _ = _ := hthen₁.quit_eq.symm
  have hdisjoint : ∀ name ∈ added₁.map Prod.fst, name ∉ added₂'.map Prod.fst :=
    fun name hone htwo => hfirst name (hnames₁ name hone)
      (second.letNames_subset_names (hnames₂ name htwo))
  refine ⟨hanswer₁, hanswer₂, hquit, frame.values ++ added₁ ++ added₂',
    frame.values ++ added₂' ++ added₁, hthen₂.frame_eq, hthen₁.frame_eq, ?_,
    lookup_append_comm hdisjoint⟩
  rw [List.append_assoc, List.append_assoc]
  exact List.perm_append_comm.append_left frame.values

/-- In a frame below the global one, a sum that fails after it has bound `a`, and a call that binds
`b` within a difference. Both names are bound in the end, in the order of the evaluations. -/
theorem independent_terms_commute_failed :
    let root := Session.globalFrame [("x", .number 1)]
    let child : Frame := { values := [("x", .string "s")], parent := some 0, generation := 2 }
    let machine : Machine := { arena := { frames := [child, root], nextGeneration := 3 } }
    let context : Context := ⟨1, 2⟩
    let run (term : Term) (machine : Machine) :=
      evaluate (.ok ⟨8, by decide⟩) term context machine
    let failing : Term := .list [.identifier "+",
      .list [.identifier "let", .identifier "a", .number 1], .identifier "x"]
    let binding : Term := .list [.identifier "-",
      .list [.identifier "let", .identifier "b", .number 2]]
    context.chain machine.arena = .ok [child, root] ∧ StandardChain [child, root] ∧
    (∀ name ∈ failing.letNames, name ∉ binding.names) ∧
    (∀ name ∈ binding.letNames, name ∉ failing.names) ∧
    answer (run failing (ending (run binding machine)))
      = .error (.language .operandNotANumber) ∧
    answer (run binding (ending (run failing machine))) = .ok ⟨.number 2, []⟩ ∧
    ∃ values values' : Table Term,
      values = [("x", .string "s"), ("a", .number 1), ("b", .number 2)] ∧
      values' = [("x", .string "s"), ("b", .number 2), ("a", .number 1)] ∧
      context.frame (ending (run binding (ending (run failing machine)))).arena
        = .ok { child with values } ∧
      context.frame (ending (run failing (ending (run binding machine)))).arena
        = .ok { child with values := values' } ∧
      values.Perm values' ∧ ∀ name, values.lookup name = values'.lookup name := by
  intro root child machine context run failing binding
  have hlive : context.chain machine.arena = .ok [child, root] := rfl
  have hstandard : StandardChain [child, root] := ⟨[child], root, rfl, by decide, rfl⟩
  have hfailing : ∀ name ∈ failing.letNames, name ∉ binding.names := by decide
  have hbinding : ∀ name ∈ binding.letNames, name ∉ failing.names := by decide
  have hfails : answer (run failing machine) = .error (.language .operandNotANumber) := rfl
  have hbinds : answer (run binding machine) = .ok ⟨.number 2, []⟩ := rfl
  obtain ⟨hanswer, hanswer', -, values, values', hframe, hframe', hperm, hlookup⟩ :=
    independent_terms_commute (.ok ⟨8, by decide⟩) failing binding hlive hstandard hfailing hbinding
  have htable : context.frame (ending (run binding (ending (run failing machine)))).arena
      = .ok { child with values := [("x", .string "s"), ("a", .number 1), ("b", .number 2)] } := rfl
  have htable' : context.frame (ending (run failing (ending (run binding machine)))).arena
      = .ok { child with values := [("x", .string "s"), ("b", .number 2), ("a", .number 1)] } := rfl
  refine ⟨hlive, hstandard, hfailing, hbinding, hanswer.symm.trans hfails,
    hanswer'.symm.trans hbinds, values, values', ?_, ?_, hframe, hframe', hperm, hlookup⟩
  · exact congrArg Frame.values (Except.ok.inj (hframe.symm.trans htable))
  · exact congrArg Frame.values (Except.ok.inj (hframe'.symm.trans htable'))

end Evaluation

end ScopeLisp
