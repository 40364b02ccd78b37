import ScopeLisp.Proofs.Refinement.Evaluation

/-!
# Committing a batch

A commit goes over its batch twice. The check looks every name up in the table of the frame as it
stands and among the names of the batch so far; then the bindings are made, one by one, in a table
that grows. Both loops come to a single pass in which every action extends the table that the
actions before it have left (`settle`), since the table that has grown holds just the names that
the check has met. So once the check has passed, no binding is refused, and a batch that is refused
has changed nothing.

* `check_eq_settle`, `bindEach_run`: each of the two loops is the single pass.
* `commit_run`: a commit in a live context, successful or not.
* `settle_eq_ok_iff`, `exists_of_settle_error`: when the single pass succeeds, and where it stops.
* `commit_all_or_nothing`: a commit binds all of its batch or nothing.
-/

namespace ScopeLisp

/-! ## Changing one table -/

/-- The arena in which the frame of a context has the given value table. -/
def Arena.withValues (arena : Arena) (context : Context) (values : Table Term) : Arena :=
  { arena with
    frames := updateAt (fun frame => { frame with values }) arena.frames context.handle }

section WithValues

variable {context : Context} {arena : Arena} {frame : Frame} {outer : List Frame}
  {first second values : Table Term}

theorem Arena.withValues_withValues :
    (arena.withValues context first).withValues context second
      = arena.withValues context second := by
  simp only [Arena.withValues, updateAt_updateAt]

theorem Context.Shows.withValues_self (h : context.Shows arena frame outer) :
    arena.withValues context frame.values = arena := by
  rw [Arena.withValues, updateAt_self h.frameAt?_eq rfl]

theorem rebinds_withValues : Rebinds context values arena (arena.withValues context values) :=
  ⟨rfl, Nat.le_refl _⟩

end WithValues

namespace Evaluation

/-! ## A batch in one pass -/

/-- The actions that ask for the given bindings, in order. -/
def actionsOf (bindings : Table Term) : List Action :=
  bindings.map fun entry => .setValue entry.1 entry.2

/-- What stands against an action when the names of `table` are taken. -/
def offence? (table : Table Term) : Action → Option Fault
  | .setValue name _ =>
    if name ∈ table.map Prod.fst then some (.language .duplicateValue) else none
  | .foreign value => some (.misuse (.unknownAction value))

/-- The table after a batch, each action extending what the actions before it have left. -/
def settle (table : Table Term) : List Action → Except Fault (Table Term)
  | [] => .ok table
  | .setValue name value :: rest =>
    if name ∈ table.map Prod.fst then .error (.language .duplicateValue)
    else settle (table ++ [(name, value)]) rest
  | .foreign value :: _ => .error (.misuse (.unknownAction value))

/-- The names are pairwise distinct, and the table has none of them. -/
structure Committable (table bindings : Table Term) : Prop where
  nodup : (bindings.map Prod.fst).Nodup
  fresh : ∀ name ∈ bindings.map Prod.fst, name ∉ table.map Prod.fst

namespace Committable

variable {table rest : Table Term} {name : String} {value : Term}

theorem nil : Committable table [] := ⟨List.nodup_nil, by simp⟩

/-- The first binding is fresh, and the others are committable once it is made. -/
theorem cons_iff : Committable table ((name, value) :: rest) ↔
    name ∉ table.map Prod.fst ∧ Committable (table ++ [(name, value)]) rest := by
  constructor
  · rintro ⟨hnodup, hfresh⟩
    rw [List.map_cons, List.nodup_cons] at hnodup
    refine ⟨hfresh name (by simp), hnodup.2, fun other hother => ?_⟩
    have hne : other ≠ name := fun h => hnodup.1 (h ▸ hother)
    have htable : other ∉ table.map Prod.fst := hfresh other (List.mem_cons_of_mem _ hother)
    rw [List.map_append, List.mem_append, not_or]
    exact ⟨htable, by simpa using hne⟩
  · rintro ⟨hname, hnodup, hfresh⟩
    have hsplit : ∀ other ∈ rest.map Prod.fst, other ∉ table.map Prod.fst ∧ other ≠ name := by
      intro other hother
      have hboth := hfresh other hother
      rw [List.map_append, List.mem_append, not_or] at hboth
      exact ⟨hboth.1, by simpa using hboth.2⟩
    refine ⟨List.nodup_cons.mpr ⟨fun h => (hsplit name h).2 rfl, hnodup⟩, fun other hother => ?_⟩
    rcases List.mem_cons.mp hother with rfl | hother
    · exact hname
    · exact (hsplit other hother).1

end Committable

/-- The pass succeeds on bindings that are committable, and adds them at the end. -/
theorem settle_eq_ok_iff {table values : Table Term} {actions : List Action} :
    settle table actions = .ok values ↔
      ∃ bindings, actions = actionsOf bindings ∧ Committable table bindings ∧
        values = table ++ bindings := by
  induction actions generalizing table with
  | nil =>
    constructor
    · intro h
      refine ⟨[], rfl, .nil, ?_⟩
      simpa using (Except.ok.inj h).symm
    · rintro ⟨bindings, hnil, -, rfl⟩
      have hbindings : bindings = [] := List.map_eq_nil_iff.mp hnil.symm
      simp [hbindings, settle]
  | cons action rest ih =>
    cases action with
    | foreign value =>
      constructor
      · intro h
        cases h
      · rintro ⟨bindings, hactions, -⟩
        cases bindings with
        | nil => cases hactions
        | cons entry later => cases (List.cons.inj hactions).1
    | setValue name value =>
      rw [settle]
      constructor
      · intro h
        split at h
        · cases h
        · rename_i hfree
          obtain ⟨bindings, rfl, hcommittable, rfl⟩ := ih.mp h
          refine ⟨(name, value) :: bindings, rfl, ?_, by simp⟩
          exact Committable.cons_iff.mpr ⟨hfree, hcommittable⟩
      · rintro ⟨bindings, hactions, hcommittable, rfl⟩
        cases bindings with
        | nil => cases hactions
        | cons entry later =>
          obtain ⟨hentry, rfl⟩ := List.cons.inj hactions
          cases hentry
          obtain ⟨hfree, hlater⟩ := Committable.cons_iff.mp hcommittable
          rw [if_neg hfree]
          exact ih.mpr ⟨later, rfl, hlater, by simp⟩

/-- The pass stops at the first action that something stands against. -/
theorem exists_of_settle_error {table : Table Term} {actions : List Action} {fault : Fault}
    (h : settle table actions = .error fault) :
    ∃ earlier action later, actions = actionsOf earlier ++ action :: later ∧
      Committable table earlier ∧ offence? (table ++ earlier) action = some fault := by
  induction actions generalizing table with
  | nil => cases h
  | cons action rest ih =>
    cases action with
    | foreign value =>
      cases h
      exact ⟨[], .foreign value, rest, rfl, .nil, rfl⟩
    | setValue name value =>
      rw [settle] at h
      split at h
      · rename_i htaken
        cases h
        refine ⟨[], .setValue name value, rest, rfl, .nil, ?_⟩
        rw [List.append_nil, offence?, if_pos htaken]
      · rename_i hfree
        obtain ⟨earlier, action, later, rfl, hearlier, hoffence⟩ := ih h
        refine ⟨(name, value) :: earlier, action, later, rfl, ?_, ?_⟩
        · exact Committable.cons_iff.mpr ⟨hfree, hearlier⟩
        · rw [List.append_assoc] at hoffence
          exact hoffence

/-! ## The two loops -/

section Loops

variable {context : Context} {frame : Frame} {outer : List Frame}

/-- The check is the single pass, on a table that has the names of the frame and those of the
batch so far. -/
theorem check_eq_settle {arena : Arena} (hs : context.Shows arena frame outer)
    (pending : List String) (table : Table Term)
    (htable : ∀ name, name ∈ table.map Prod.fst ↔
      name ∈ frame.values.map Prod.fst ∨ name ∈ pending) (actions : List Action) :
    check context arena pending actions = (settle table actions).map fun _ => () := by
  induction actions generalizing pending table with
  | nil => rfl
  | cons action rest ih =>
    cases action with
    | foreign value => rfl
    | setValue name value =>
      have htaken : (frame.values.binds name || pending.contains name) = true ↔
          name ∈ table.map Prod.fst := by
        rw [htable, Bool.or_eq_true, Table.binds_iff, List.contains_iff_mem]
      rw [check, hs.frame_eq, settle]
      dsimp only
      by_cases h : name ∈ table.map Prod.fst
      · rw [if_pos (htaken.mpr h), if_pos h]
        rfl
      · rw [if_neg (fun hb => h (htaken.mp hb)), if_neg h]
        apply ih
        intro other
        simp only [List.map_append, List.map_cons, List.map_nil, List.mem_append, List.mem_cons,
          htable]
        tauto

theorem change_setValue_of_fresh {before : Machine} (hs : context.Shows before.arena frame outer)
    {name : String} (hfree : name ∉ frame.values.map Prod.fst) (value : Term) :
    Eval.change (fun arena => context.setValue arena name value) before
      = .ok () { before with
          arena := before.arena.withValues context (frame.values ++ [(name, value)]) } := by
  rw [Eval.change, setValue_eq_extend hs, Scopes.extend, if_neg hfree]
  rfl

/-- The bindings are made as the single pass makes them. No step is refused. -/
theorem bindEach_run {before : Machine} (hs : context.Shows before.arena frame outer)
    {actions : List Action} {values : Table Term}
    (h : settle frame.values actions = .ok values) :
    ∃ after, bindEach context actions before = .ok () after ∧ after.quit = before.quit ∧
      after.arena = before.arena.withValues context values := by
  induction actions generalizing before frame with
  | nil =>
    cases h
    exact ⟨before, rfl, rfl, hs.withValues_self.symm⟩
  | cons action rest ih =>
    cases action with
    | foreign value => cases h
    | setValue name value =>
      rw [settle] at h
      split at h
      · cases h
      · rename_i hfree
        -- the entry in the log stands between the check and the change, and touches no frame
        let noted := before.note .debug .commit (commitNote context name value)
        let grown : Machine := { noted with
          arena := noted.arena.withValues context (frame.values ++ [(name, value)]) }
        have hnoted : context.Shows noted.arena frame outer := hs
        have hchange := change_setValue_of_fresh hnoted hfree value
        have hrebinds : Rebinds context (frame.values ++ [(name, value)]) noted.arena grown.arena :=
          rebinds_withValues
        obtain ⟨after, hrun, hquit, harena⟩ := ih (hrebinds.shows hnoted) h
        refine ⟨after, ?_, hquit, harena.trans Arena.withValues_withValues⟩
        rw [bindEach, bind_of_ok (note_run _ _ _ _), bind_of_ok hchange]
        exact hrun

/-- A commit in a live context leaves its frame with the table of the single pass, or leaves the
machine as it was. -/
theorem commit_run {before : Machine} (hs : context.Shows before.arena frame outer)
    (actions : List Action) :
    (∃ fault, settle frame.values actions = .error fault ∧
      commit context actions before = .error fault before) ∨
    (∃ values after, settle frame.values actions = .ok values ∧
      commit context actions before = .ok () after ∧ after.quit = before.quit ∧
      after.arena = before.arena.withValues context values) := by
  have hcheck := check_eq_settle hs [] frame.values (by simp) actions
  cases actions with
  | nil =>
    rw [commit_nil]
    exact .inr ⟨frame.values, before, rfl, rfl, rfl, hs.withValues_self.symm⟩
  | cons action rest =>
    have hcommit : commit context (action :: rest)
      = (do
          Eval.change fun arena => (check context arena [] (action :: rest)).map fun _ => arena
          bindEach context (action :: rest)) := rfl
    rw [hcommit]
    cases hsettle : settle frame.values (action :: rest) with
    | error fault =>
      refine .inl ⟨fault, rfl, bind_of_error ?_⟩
      rw [Eval.change, hcheck, hsettle]
      rfl
    | ok values =>
      obtain ⟨after, hrun, hquit, harena⟩ := bindEach_run hs hsettle
      refine .inr ⟨values, after, rfl, ?_, hquit, harena⟩
      have hchecked : Eval.change (fun arena =>
          (check context arena [] (action :: rest)).map fun _ => arena) before
            = .ok () before := by
        rw [Eval.change, hcheck, hsettle]
        rfl
      rw [bind_of_ok hchecked]
      exact hrun

end Loops

/-! ## All or nothing -/

/-- A commit in a live context succeeds exactly when its batch consists of bindings whose names
are pairwise distinct and not among the values of the frame. Then the table of the frame is the old
one followed by the bindings in order, and the arena is otherwise as before. A commit that fails
does so with what stands against the first action that cannot follow the actions before it, and
leaves the machine as it was. Whenever the check passes, every binding is made. -/
theorem commit_all_or_nothing (context : Context) (machine : Machine) (actions : List Action)
    {frame : Frame} {outer : List Frame}
    (hlive : context.chain machine.arena = .ok (frame :: outer)) :
    ((∃ after, commit context actions machine = .ok () after) ↔
      ∃ bindings, actions = actionsOf bindings ∧ Committable frame.values bindings) ∧
    (∀ bindings, actions = actionsOf bindings → Committable frame.values bindings →
      ∃ after, commit context actions machine = .ok () after ∧ after.quit = machine.quit ∧
        after.arena = machine.arena.withValues context (frame.values ++ bindings)) ∧
    (∀ fault after, commit context actions machine = .error fault after →
      after = machine ∧
      ∃ earlier action later, actions = actionsOf earlier ++ action :: later ∧
        Committable frame.values earlier ∧
        offence? (frame.values ++ earlier) action = some fault) ∧
    (check context machine.arena [] actions = .ok () →
      ∃ after, bindEach context actions machine = .ok () after) := by
  obtain ⟨_, _, hframes, hs⟩ := Context.chain_eq_ok_iff.mp hlive
  obtain ⟨rfl, rfl⟩ := List.cons.inj hframes
  have hcommits : ∀ bindings, actions = actionsOf bindings → Committable frame.values bindings →
      ∃ after, commit context actions machine = .ok () after ∧ after.quit = machine.quit ∧
        after.arena = machine.arena.withValues context (frame.values ++ bindings) := by
    intro bindings hactions hcommittable
    have hsettle := settle_eq_ok_iff.mpr ⟨bindings, hactions, hcommittable, rfl⟩
    rcases commit_run hs actions with ⟨fault, herror, -⟩ | ⟨values, after, hok, hrun⟩
    · cases hsettle.symm.trans herror
    · cases hsettle.symm.trans hok
      exact ⟨after, hrun⟩
  refine ⟨⟨?_, ?_⟩, hcommits, ?_, ?_⟩
  · rintro ⟨after, hrun⟩
    rcases commit_run hs actions with ⟨fault, -, hrun'⟩ | ⟨values, after', hsettle, -⟩
    · cases hrun.symm.trans hrun'
    · obtain ⟨bindings, hactions, hcommittable, -⟩ := settle_eq_ok_iff.mp hsettle
      exact ⟨bindings, hactions, hcommittable⟩
  · rintro ⟨bindings, hactions, hcommittable⟩
    obtain ⟨after, hrun, -⟩ := hcommits bindings hactions hcommittable
    exact ⟨after, hrun⟩
  · intro fault after hrun
    rcases commit_run hs actions with ⟨fault', hsettle, hrun'⟩ | ⟨values, after', -, hrun', -⟩
    · cases hrun.symm.trans hrun'
      exact ⟨rfl, exists_of_settle_error hsettle⟩
    · cases hrun.symm.trans hrun'
  · intro hcheck
    rw [check_eq_settle hs [] frame.values (by simp)] at hcheck
    cases hsettle : settle frame.values actions with
    | error fault =>
      rw [hsettle] at hcheck
      cases hcheck
    | ok values =>
      obtain ⟨after, hrun, -⟩ := bindEach_run hs hsettle
      exact ⟨after, hrun⟩

/-- In a frame below the global one, names that are bound further out, to a value or to a function,
can be bound; a batch with a name twice is refused at the second place, although a stranger stands
behind it, and none of it is bound. -/
theorem commit_all_or_nothing_child :
    let root : Frame :=
      { values := [("x", .number 1)], functions := standardFunctions, parent := none,
        generation := 1 }
    let child : Frame := { values := [("y", .number 2)], parent := some 0, generation := 2 }
    let machine : Machine := { arena := { frames := [child, root], nextGeneration := 3 } }
    let context : Context := ⟨1, 2⟩
    let good : Table Term := [("x", .string "s"), ("+", .nil)]
    let bad : List Action :=
      [.setValue "x" .nil, .setValue "x" (.number 3), .foreign Foreign.absent]
    context.chain machine.arena = .ok [child, root] ∧
    (∃ after, commit context (actionsOf good) machine = .ok () after ∧
      after.arena = machine.arena.withValues context
        [("y", .number 2), ("x", .string "s"), ("+", .nil)]) ∧
    commit context bad machine = .error (.language .duplicateValue) machine := by
  intro root child machine context good bad
  have hlive : context.chain machine.arena = .ok [child, root] := rfl
  have hgood : Committable child.values good := ⟨by decide, by decide⟩
  obtain ⟨after, hrun, -, harena⟩ :=
    (commit_all_or_nothing context machine (actionsOf good) hlive).2.1 good rfl hgood
  have hbad : ∃ after, commit context bad machine = .error (.language .duplicateValue) after :=
    ⟨_, rfl⟩
  obtain ⟨after', hfail⟩ := hbad
  have hkept := ((commit_all_or_nothing context machine bad hlive).2.2.1 _ _ hfail).1
  exact ⟨hlive, ⟨after, hrun, harena⟩, hkept ▸ hfail⟩

end Evaluation

end ScopeLisp
