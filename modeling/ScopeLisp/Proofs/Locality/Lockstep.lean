import ScopeLisp.Proofs.Commit
import ScopeLisp.Proofs.Session

/-!
# Two runs in lockstep

Two runs of one computation are compared, each in a context of its own: of one arena or of two,
anywhere in the stack. The contexts cannot be told apart by the names in a given list. As long as
the computation asks for these names only, both runs come to the same value or the same fault, and
they add the same bindings to their frames. Then the two contexts are still alike, so the next part
of the computation goes on in lockstep as well.

* `Site`: a live context, the machine at the start of a run in it, and the chain of the context.
* `Alike`: two sites that agree on the given names. It is kept by adding the same bindings at both
  (`Alike.moved`), and it is passed on to new frames below both (`Alike.inner`).
* `InStep`: two runs in lockstep, with a rule for sequences (`InStep.bind`), for local scopes
  (`InStep.inChild`) and for pending bindings (`InStep.commit`).
-/

namespace ScopeLisp

/-! ## Names -/

namespace Term

mutual

/-- The names in a term, at any depth, those at the head of a call included. -/
def names : Term → List String
  | .identifier name => [name]
  | .list terms => namesAll terms
  | _ => []

/-- The names in several terms. -/
def namesAll : List Term → List String
  | [] => []
  | t :: ts => names t ++ namesAll ts

end

theorem mem_namesAll {name : String} {terms : List Term} :
    name ∈ namesAll terms ↔ ∃ t ∈ terms, name ∈ t.names := by
  induction terms with
  | nil => simp [namesAll]
  | cons t ts ih => simp [namesAll, ih]

theorem names_subset_of_mem {t : Term} {terms : List Term} (h : t ∈ terms) :
    t.names ⊆ namesAll terms :=
  fun _ hname => mem_namesAll.mpr ⟨t, h, hname⟩

end Term

theorem lookup_isSome_iff_mem {α : Type} {table : Table α} {name : String} :
    (table.lookup name).isSome = true ↔ name ∈ table.map Prod.fst := by
  rw [List.lookup_isSome_iff, List.mem_map]
  constructor
  · rintro ⟨entry, hentry, heq⟩
    exact ⟨entry, hentry, (beq_iff_eq.mp heq).symm⟩
  · rintro ⟨entry, hentry, rfl⟩
    exact ⟨entry, hentry, beq_self_eq_true _⟩

theorem lookup_eq_none_iff_mem {α : Type} {table : Table α} {name : String} :
    table.lookup name = none ↔ name ∉ table.map Prod.fst := by
  rw [← lookup_isSome_iff_mem, Bool.not_eq_true, Option.isSome_eq_false_iff,
    Option.isNone_iff_eq_none]

/-! ## Sites -/

/-- Where a run takes place: in a live context of a machine, with the given chain. -/
structure Site where
  context : Context
  machine : Machine
  frame : Frame
  outer : List Frame
  shows : context.Shows machine.arena frame outer

namespace Site

variable {α : Type} {site : Site} {added later : Table Term} {asked asked' : Bool}
  {after final : Machine}

/-- A run at the site adds bindings to the frame of its context and may ask to quit. Nothing else
changes in the arena. -/
structure Adds (site : Site) (added : Table Term) (asked : Bool) (after : Machine) : Prop where
  rebinds : Rebinds site.context (site.frame.values ++ added) site.machine.arena after.arena
  quit_eq : after.quit = (site.machine.quit || asked)

/-- The site after a run. -/
def moved (site : Site) (h : site.Adds added asked after) : Site where
  context := site.context
  machine := after
  frame := { site.frame with values := site.frame.values ++ added }
  outer := site.outer
  shows := h.rebinds.shows site.shows

theorem Adds.still (harena : after.arena = site.machine.arena)
    (hquit : after.quit = site.machine.quit) : site.Adds [] false after where
  rebinds := by
    rw [List.append_nil, harena]
    exact .refl site.shows
  quit_eq := by rw [hquit, Bool.or_false]

theorem Adds.trans (h : site.Adds added asked after) (h' : (site.moved h).Adds later asked' final) :
    site.Adds (added ++ later) (asked || asked') final where
  rebinds := by
    rw [← List.append_assoc]
    exact h.rebinds.trans h'.rebinds
  quit_eq := by
    have hfirst : (site.moved h).machine.quit = (site.machine.quit || asked) := h.quit_eq
    rw [h'.quit_eq, hfirst, Bool.or_assoc]

theorem Adds.frame_eq (h : site.Adds added asked after) :
    site.context.frame after.arena
      = .ok { site.frame with values := site.frame.values ++ added } :=
  (site.moved h).shows.frame_eq

/-- Where the body of a local scope runs: in a new frame below the one of the site. -/
def inner (site : Site) : Site where
  context := (site.machine.arena.push (some site.context.handle)).1
  machine := Evaluation.pushed site.context site.machine
  frame := { parent := some site.context.handle, generation := site.machine.arena.nextGeneration }
  outer := site.frame :: site.outer
  shows := site.shows.push

/-- A local scope ends as its body does. Once its frame is released, it has added nothing. -/
theorem inChild_run {body : Context → Eval α} (h : site.inner.Adds added asked after) :
    ∃ final, site.Adds [] asked final ∧
      (∀ value, body site.inner.context site.inner.machine = .ok value after →
        Eval.inChild site.context body site.machine = .ok value final) ∧
      (∀ fault, body site.inner.context site.inner.machine = .error fault after →
        Eval.inChild site.context body site.machine = .error fault final) := by
  obtain ⟨final, hclose, hquit, hframes, hnext⟩ := Evaluation.closeFrame_run h.rebinds
  have hopen := Evaluation.openFrame_run site.shows
  refine ⟨final, ⟨⟨?_, hnext⟩, hquit.trans h.quit_eq⟩, fun value hbody => ?_,
    fun fault hbody => ?_⟩
  · rw [hframes, List.append_nil]
    exact (updateAt_self site.shows.frameAt?_eq rfl).symm
  · have hrun : Eval.inChild site.context body site.machine = _ := Evaluation.bind_of_ok hopen
    simp only [hrun]
    simp only [inner] at hbody
    simp only [hbody, hclose]
  · have hrun : Eval.inChild site.context body site.machine = _ := Evaluation.bind_of_ok hopen
    simp only [hrun]
    simp only [inner] at hbody
    simp only [hbody, hclose]

end Site

/-! ## Sites that look alike -/

/-- The names do not tell the sites apart: they have the same nearest values and the same nearest
functions, and the same of them are bound in the frame itself. -/
structure Alike (names : List String) (here there : Site) : Prop where
  value_eq : ∀ name ∈ names,
    nearestValue (here.frame :: here.outer) name = nearestValue (there.frame :: there.outer) name
  function_eq : ∀ name ∈ names,
    nearestFunction (here.frame :: here.outer) name
      = nearestFunction (there.frame :: there.outer) name
  own_iff : ∀ name ∈ names,
    name ∈ here.frame.values.map Prod.fst ↔ name ∈ there.frame.values.map Prod.fst

namespace Alike

variable {names : List String} {here there : Site} {added : Table Term} {asked : Bool}
  {after after' : Machine}

/-- Adding the same bindings at both sites does not tell them apart. A name that was bound in both
frames keeps its value; any other name is looked up in the new bindings first. -/
theorem moved (h : Alike names here there) (hhere : here.Adds added asked after)
    (hthere : there.Adds added asked after') :
    Alike names (here.moved hhere) (there.moved hthere) where
  value_eq := by
    intro name hname
    have hvalue := h.value_eq name hname
    have hown := h.own_iff name hname
    simp only [nearestValue_cons] at hvalue
    simp only [Site.moved, nearestValue_cons, List.lookup_append, Option.or_assoc]
    cases hfirst : here.frame.values.lookup name with
    | some value =>
      have hbound := lookup_isSome_iff_mem.mp (Option.isSome_of_eq_some hfirst)
      obtain ⟨value', hsecond⟩ :=
        Option.isSome_iff_exists.mp (lookup_isSome_iff_mem.mpr (hown.mp hbound))
      simpa [hfirst, hsecond] using hvalue
    | none =>
      have hfree := lookup_eq_none_iff_mem.mp hfirst
      have hsecond : there.frame.values.lookup name = none :=
        lookup_eq_none_iff_mem.mpr fun h => hfree (hown.mpr h)
      rw [hfirst, hsecond, Option.none_or, Option.none_or] at hvalue
      rw [hsecond, hvalue]
  function_eq := h.function_eq
  own_iff := by
    intro name hname
    simp only [Site.moved, List.map_append, List.mem_append, h.own_iff name hname]

theorem inner (h : Alike names here there) : Alike names here.inner there.inner where
  value_eq := h.value_eq
  function_eq := h.function_eq
  own_iff := fun _ _ => Iff.rfl

end Alike

/-! ## Runs in lockstep -/

/-- Run at the two sites, the computations come to the same value, of which `post` holds, or to the
same fault. They add the same bindings and ask alike to quit. -/
def InStep {α : Type} (post : α → Prop) (here there : Site) (x y : Eval α) : Prop :=
  ∃ added asked after after', here.Adds added asked after ∧ there.Adds added asked after' ∧
    ((∃ value, post value ∧ x here.machine = .ok value after ∧
        y there.machine = .ok value after') ∨
      ∃ fault, x here.machine = .error fault after ∧ y there.machine = .error fault after')

namespace InStep

variable {α β : Type} {post : α → Prop} {next : β → Prop} {here there : Site} {x y : Eval α}
  {f g : α → Eval β} {names : List String}

theorem mono {weaker : α → Prop} (h : InStep post here there x y)
    (himp : ∀ value, post value → weaker value) : InStep weaker here there x y := by
  obtain ⟨added, asked, after, after', hhere, hthere, hend⟩ := h
  refine ⟨added, asked, after, after', hhere, hthere, ?_⟩
  rcases hend with ⟨value, hpost, hruns⟩ | hfault
  · exact .inl ⟨value, himp value hpost, hruns⟩
  · exact .inr hfault

/-- What can be seen from outside of two runs in lockstep. -/
theorem ends (h : InStep post here there x y) :
    Session.answer (x here.machine) = Session.answer (y there.machine) ∧
    ∃ added asked, here.Adds added asked (Session.ending (x here.machine)) ∧
      there.Adds added asked (Session.ending (y there.machine)) := by
  obtain ⟨added, asked, after, after', hhere, hthere, hend⟩ := h
  rcases hend with ⟨value, -, hx, hy⟩ | ⟨fault, hx, hy⟩
  · rw [hx, hy]
    exact ⟨rfl, added, asked, hhere, hthere⟩
  · rw [hx, hy]
    exact ⟨rfl, added, asked, hhere, hthere⟩

/-- A computation that only looks at its machine. -/
theorem of_ok (value : α) (hpost : post value)
    (hx : x here.machine = .ok value here.machine)
    (hy : y there.machine = .ok value there.machine) : InStep post here there x y :=
  ⟨[], false, _, _, .still rfl rfl, .still rfl rfl, .inl ⟨value, hpost, hx, hy⟩⟩

theorem pure {value : α} (hpost : post value) :
    InStep post here there (Pure.pure value) (Pure.pure value) :=
  of_ok value hpost rfl rfl

theorem throw (fault : Fault) :
    InStep post here there (MonadExcept.throw fault) (MonadExcept.throw fault) :=
  ⟨[], false, _, _, .still rfl rfl, .still rfl rfl, .inr ⟨fault, rfl, rfl⟩⟩

/-- The log is no part of the comparison: entries may name the frame of a call. -/
theorem note (level : Log.Level) (origin : Log.Origin)
    (first second : Option String) :
    InStep (fun _ => True) here there (Eval.note level origin first)
      (Eval.note level origin second) :=
  ⟨[], false, here.machine.note level origin first, there.machine.note level origin second,
    .still rfl rfl, .still rfl rfl, .inl ⟨(), trivial, rfl, rfl⟩⟩

theorem ofExcept (outcome : Except Fault α) :
    InStep (fun _ => True) here there (Eval.ofExcept outcome) (Eval.ofExcept outcome) := by
  cases outcome with
  | ok value => exact pure trivial
  | error fault => exact throw fault

/-- What follows starts at the sites to which the first part has moved. -/
theorem bind (hxy : InStep post here there x y)
    (hfg : ∀ value added asked after after' (hhere : here.Adds added asked after)
      (hthere : there.Adds added asked after'), post value →
      InStep next (here.moved hhere) (there.moved hthere) (f value) (g value)) :
    InStep next here there (x >>= f) (y >>= g) := by
  obtain ⟨added, asked, after, after', hhere, hthere, hend⟩ := hxy
  rcases hend with ⟨value, hpost, hx, hy⟩ | ⟨fault, hx, hy⟩
  · obtain ⟨later, asked', final, final', hhere', hthere', hend⟩ :=
      hfg value added asked after after' hhere hthere hpost
    refine ⟨added ++ later, asked || asked', final, final', hhere.trans hhere',
      hthere.trans hthere', ?_⟩
    rw [Evaluation.bind_of_ok hx, Evaluation.bind_of_ok hy]
    exact hend
  · refine ⟨added, asked, after, after', hhere, hthere, .inr ⟨fault, ?_, ?_⟩⟩
    · exact Evaluation.bind_of_error hx
    · exact Evaluation.bind_of_error hy

/-- Local scopes go in lockstep when their bodies do. -/
theorem inChild {body body' : Context → Eval α}
    (h : InStep post here.inner there.inner (body here.inner.context)
      (body' there.inner.context)) :
    InStep post here there (Eval.inChild here.context body)
      (Eval.inChild there.context body') := by
  obtain ⟨added, asked, after, after', hhere, hthere, hend⟩ := h
  obtain ⟨final, hfinal, hok, herror⟩ := Site.inChild_run hhere
  obtain ⟨final', hfinal', hok', herror'⟩ := Site.inChild_run hthere
  refine ⟨[], asked, final, final', hfinal, hfinal', ?_⟩
  rcases hend with ⟨value, hpost, hx, hy⟩ | ⟨fault, hx, hy⟩
  · exact .inl ⟨value, hpost, hok value hx, hok' value hy⟩
  · exact .inr ⟨fault, herror fault hx, herror' fault hy⟩

/-- Binding one of the names. -/
theorem setValue (halike : Alike names here there) {name : String} (hname : name ∈ names)
    (value : Term) :
    InStep (fun _ => True) here there
      (Eval.change fun arena => here.context.setValue arena name value)
      (Eval.change fun arena => there.context.setValue arena name value) := by
  by_cases htaken : name ∈ here.frame.values.map Prod.fst
  · have htaken' := (halike.own_iff name hname).mp htaken
    refine ⟨[], false, _, _, .still rfl rfl, .still rfl rfl,
      .inr ⟨.language .duplicateValue, ?_, ?_⟩⟩
    · rw [Eval.change, Evaluation.setValue_eq_extend here.shows, Scopes.extend, if_pos htaken]
      rfl
    · rw [Eval.change, Evaluation.setValue_eq_extend there.shows, Scopes.extend, if_pos htaken']
      rfl
  · have hfree' := fun h => htaken ((halike.own_iff name hname).mpr h)
    refine ⟨[(name, value)], false, _, _, ⟨rebinds_withValues, ?_⟩, ⟨rebinds_withValues, ?_⟩,
      .inl ⟨(), trivial, Evaluation.change_setValue_of_fresh here.shows htaken value,
        Evaluation.change_setValue_of_fresh there.shows hfree' value⟩⟩
    · rw [Bool.or_false]
    · rw [Bool.or_false]

end InStep

/-! ## Pending bindings -/

/-- All bindings that wait to be committed are of the given names. -/
def Named (names : List String) (actions : List Action) : Prop :=
  ∀ name value, .setValue name value ∈ actions → name ∈ names

namespace Named

variable {names : List String} {actions later : List Action}

theorem nil : Named names [] := by
  intro name value h
  cases h

theorem cons {name : String} (hname : name ∈ names) (value : Term) (h : Named names later) :
    Named names (.setValue name value :: later) := by
  intro other bound hmem
  rcases List.mem_cons.mp hmem with heq | hmem
  · cases heq
    exact hname
  · exact h other bound hmem

theorem tail {action : Action} (h : Named names (action :: later)) : Named names later :=
  fun name value hmem => h name value (List.mem_cons_of_mem _ hmem)

/-- A batch comes to the same on two tables that bind the same of its names. -/
theorem settle_alike (h : Named names actions) {table other : Table Term}
    (hown : ∀ name ∈ names, name ∈ table.map Prod.fst ↔ name ∈ other.map Prod.fst) :
    (∃ fault, Evaluation.settle table actions = .error fault ∧
      Evaluation.settle other actions = .error fault) ∨
    ∃ added, Evaluation.settle table actions = .ok (table ++ added) ∧
      Evaluation.settle other actions = .ok (other ++ added) := by
  induction actions generalizing table other with
  | nil =>
    refine .inr ⟨[], ?_, ?_⟩
    · rw [List.append_nil, Evaluation.settle]
    · rw [List.append_nil, Evaluation.settle]
  | cons action rest ih =>
    cases action with
    | foreign value => exact .inl ⟨_, rfl, rfl⟩
    | setValue name value =>
      have hname : name ∈ names := h name value List.mem_cons_self
      rw [Evaluation.settle, Evaluation.settle]
      by_cases htaken : name ∈ table.map Prod.fst
      · have htaken' := (hown name hname).mp htaken
        rw [if_pos htaken, if_pos htaken']
        exact .inl ⟨_, rfl, rfl⟩
      · have hfree' := fun h => htaken ((hown name hname).mpr h)
        rw [if_neg htaken, if_neg hfree']
        have hgrown : ∀ other' ∈ names, other' ∈ (table ++ [(name, value)]).map Prod.fst ↔
            other' ∈ (other ++ [(name, value)]).map Prod.fst := by
          intro other' hmem
          simp only [List.map_append, List.mem_append, hown other' hmem]
        rcases ih h.tail hgrown with hfault | ⟨added, hfirst, hsecond⟩
        · exact .inl hfault
        · refine .inr ⟨(name, value) :: added, ?_, ?_⟩
          · simpa using hfirst
          · simpa using hsecond

end Named

namespace InStep

variable {names : List String} {here there : Site} {actions : List Action} {x y : Eval Yield}

/-- Committing bindings of the names. -/
theorem commit (halike : Alike names here there) (h : Named names actions) :
    InStep (fun _ => True) here there (Evaluation.commit here.context actions)
      (Evaluation.commit there.context actions) := by
  rcases h.settle_alike halike.own_iff with ⟨fault, hfirst, hsecond⟩ | ⟨added, hfirst, hsecond⟩
  · rcases Evaluation.commit_run here.shows actions with ⟨_, hsettle, hrun⟩ | ⟨_, _, hsettle, -⟩
    · rcases Evaluation.commit_run there.shows actions with
        ⟨_, hsettle', hrun'⟩ | ⟨_, _, hsettle', -⟩
      · cases hfirst.symm.trans hsettle
        cases hsecond.symm.trans hsettle'
        exact ⟨[], false, _, _, .still rfl rfl, .still rfl rfl, .inr ⟨fault, hrun, hrun'⟩⟩
      · cases hsecond.symm.trans hsettle'
    · cases hfirst.symm.trans hsettle
  · rcases Evaluation.commit_run here.shows actions with
      ⟨_, hsettle, -⟩ | ⟨_, after, hsettle, hrun, hquit, harena⟩
    · cases hfirst.symm.trans hsettle
    · rcases Evaluation.commit_run there.shows actions with
        ⟨_, hsettle', -⟩ | ⟨_, after', hsettle', hrun', hquit', harena'⟩
      · cases hsecond.symm.trans hsettle'
      · cases hfirst.symm.trans hsettle
        cases hsecond.symm.trans hsettle'
        refine ⟨added, false, after, after', ⟨harena ▸ rebinds_withValues, ?_⟩,
          ⟨harena' ▸ rebinds_withValues, ?_⟩, .inl ⟨(), trivial, hrun, hrun'⟩⟩
        · rw [hquit, Bool.or_false]
        · rw [hquit', Bool.or_false]

/-- A computation whose pending bindings are committed in the end leaves none pending. -/
theorem settled (halike : Alike names here there)
    (h : InStep (fun result => Named names result.actions) here there x y) :
    InStep (fun result => result.actions = []) here there
      (Evaluation.settled here.context x) (Evaluation.settled there.context y) := by
  refine h.bind fun result added asked after after' hhere hthere hnamed => ?_
  refine (commit (halike.moved hhere hthere) hnamed).bind fun _ _ _ _ _ _ _ _ => ?_
  exact pure rfl

end InStep

end ScopeLisp
