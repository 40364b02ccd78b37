import ScopeLisp.Proofs.Footprint

/-!
# Calls with local bindings

A call of `eval` names its local bindings by names and values in turn. On scopes it puts one scope
more at the front, with these bindings as they are written, and takes it away again, so that two
such calls can be compared by what their bodies do under the scopes that they open. In the stack
they then have the same answer and leave every frame as it was.

* `localCall`: the call with a given table of bindings.
* `Scopes.evaluate_localCall`: the call on scopes.
* `Evaluation.runs_coincide`: from outcomes on scopes to runs in the stack.
-/

namespace ScopeLisp

open Scopes

/-- The entries of a table as arguments: each name, and after it its value as written. -/
def pairTerms (table : Table Term) : List Term :=
  table.flatMap fun entry => [.identifier entry.1, entry.2]

/-- The call that evaluates its body with local bindings. -/
def localCall (body : Term) (locals : Table Term) : Term :=
  .list (.identifier "eval" :: body :: pairTerms locals)

theorem pairTerms_cons (entry : String × Term) (table : Table Term) :
    pairTerms (entry :: table) = .identifier entry.1 :: entry.2 :: pairTerms table := rfl

theorem length_pairTerms (table : Table Term) : (pairTerms table).length = 2 * table.length := by
  induction table with
  | nil => rfl
  | cons entry rest ih =>
    rw [pairTerms_cons, List.length_cons, List.length_cons, List.length_cons, ih]
    omega

/-! ## On scopes -/

namespace Scopes

variable {width : WidthSetting} {near : Scope} {outer : List Scope} {locals : Table Term}

theorem findValue_cons (near : Scope) (outer : List Scope) (name : String) :
    findValue (near :: outer) name = (near.values.lookup name).or (findValue outer name) := by
  rw [findValue, List.findSome?_cons, findValue]
  cases near.values.lookup name <;> rfl

/-- Entries with names of their own are added one by one. -/
theorem extendAll_pairTerms {table : Table Term} (h : ((table ++ locals).map Prod.fst).Nodup) :
    extendAll table (pairTerms locals) = .ok (table ++ locals) := by
  induction locals generalizing table with
  | nil =>
    rw [List.append_nil]
    rfl
  | cons entry rest ih =>
    have hfresh : entry.1 ∉ table.map Prod.fst := by
      rw [List.map_append, List.map_cons] at h
      intro hmem
      exact (List.nodup_append.mp h).2.2 _ hmem _ List.mem_cons_self rfl
    rw [List.append_cons] at h ⊢
    rw [pairTerms_cons, extendAll, extend, if_neg hfresh]
    exact ih h

/-- The body is evaluated in a scope of the bindings, below the scopes of the call. -/
theorem evaluate_localCall (hstandard : Standard (near :: outer))
    (hdistinct : (locals.map Prod.fst).Nodup) (body : Term) (quit : Bool) :
    evaluate width (localCall body locals) near outer quit
      = ⟨(evaluate width body { values := locals } (near :: outer) quit).answer, near.values,
          (evaluate width body { values := locals } (near :: outer) quit).quit⟩ := by
  have heven : ¬ (pairTerms locals).length % 2 = 1 := by
    rw [length_pairTerms]
    omega
  have hlocals : extendAll [] (pairTerms locals) = .ok locals :=
    @extendAll_pairTerms locals [] hdistinct
  rw [localCall, evaluate_evaluate_cons (hstandard "eval"), if_neg heven, hlocals]

end Scopes

/-! ## In the stack -/

namespace Evaluation

open Session (answer ending)

variable {context : Context} {machine : Machine} {frame : Frame} {outer : List Frame}

theorem answer_result (outcome : Outcome) (machine machine' : Machine) :
    answer (outcome.result machine) = answer (outcome.result machine') := by
  rw [Outcome.result, Outcome.result]
  cases outcome.answer <;> rfl

/-- A term that binds nothing in the nearest scope changes no frame. -/
theorem run_of_still (width : WidthSetting) (term : Term)
    (hlive : context.chain machine.arena = .ok (frame :: outer))
    (hstandard : StandardChain (frame :: outer)) {outcome : Outcome}
    (houtcome : Scopes.evaluate width term frame.scope (outer.map Frame.scope) machine.quit
      = outcome) (hstill : outcome.values = frame.values) :
    ∃ after, evaluate width term context machine = outcome.result after ∧
      after.quit = outcome.quit ∧ after.arena.frames = machine.arena.frames := by
  obtain ⟨_, _, hframes, hs⟩ := Context.chain_eq_ok_iff.mp hlive
  obtain ⟨rfl, rfl⟩ := List.cons.inj hframes
  obtain ⟨after, hrun, hquit, hrebinds⟩ :=
    refines width term context machine frame outer ⟨hs, hstandard.isPlain⟩
  rw [houtcome] at hrun hquit hrebinds
  exact ⟨after, hrun, hquit, hrebinds.frames_eq.trans (updateAt_of_values_eq hlive hstill)⟩

/-- Two terms with the same outcome on scopes, which bind nothing in the nearest scope, cannot be
told apart by running them in the stack. -/
theorem runs_coincide (width : WidthSetting) {first second : Term}
    (hlive : context.chain machine.arena = .ok (frame :: outer))
    (hstandard : StandardChain (frame :: outer)) {outcome : Outcome}
    (hfirst : Scopes.evaluate width first frame.scope (outer.map Frame.scope) machine.quit
      = outcome)
    (hsecond : Scopes.evaluate width second frame.scope (outer.map Frame.scope) machine.quit
      = outcome) (hstill : outcome.values = frame.values) :
    answer (evaluate width first context machine) = answer (evaluate width second context machine) ∧
    (ending (evaluate width first context machine)).quit
      = (ending (evaluate width second context machine)).quit ∧
    (ending (evaluate width first context machine)).arena.frames = machine.arena.frames ∧
    (ending (evaluate width second context machine)).arena.frames = machine.arena.frames := by
  obtain ⟨after, hrun, hquit, hframes⟩ := run_of_still width first hlive hstandard hfirst hstill
  obtain ⟨after', hrun', hquit', hframes'⟩ :=
    run_of_still width second hlive hstandard hsecond hstill
  rw [hrun, hrun', Session.ending_result, Session.ending_result]
  exact ⟨answer_result outcome after after', hquit.trans hquit'.symm, hframes, hframes'⟩

end Evaluation

end ScopeLisp
