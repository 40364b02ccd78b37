import ScopeLisp.Proofs.Scopes
import ScopeLisp.Proofs.Stack

/-!
# Agreement of a run on the stack with an outcome on scopes

A frame is read as a scope by forgetting its place in the stack. A run in a context agrees with
an outcome when it has the same answer and the same wish to quit, and when the value table of the
frame of the context is all that has changed in the stack. On errors this says as much as on
success: whatever frames were opened on the way have been released.

* `Rebinds`: the change of one value table, with `Rebinds.refl` and `Rebinds.trans`.
* `Evaluation.Agrees.bind`: agreement of runs in sequence.
* `Evaluation.Agrees.settled`: agreement of a run that has nothing to commit in the end.
-/

namespace ScopeLisp

open Scopes

/-! ## Frames as scopes -/

/-- What a function does when it is called. -/
def Function.form : Function → Form
  | .userDefined _ => .undefined
  | .builtin fn =>
    match fn.body with
    | .add => .add
    | .subtract => .subtract
    | .multiply => .multiply
    | .bind => .bind
    | .evaluate => .evaluate
    | .quit => .quit
    | .collect | .bindAll | .sequence => .undefined

/-- The function is one of the six standard ones, or has no body. -/
def Function.IsPlain (fn : Function) : Prop :=
  fn ∈ standardFunctions.map Prod.snd ∨ ∃ name, fn = .userDefined name

/-- Every function that the frame binds is a standard one, or has no body. -/
def Frame.IsPlain (frame : Frame) : Prop := ∀ entry ∈ frame.functions, entry.2.IsPlain

instance (fn : Function) : Decidable fn.IsPlain :=
  match fn with
  | .userDefined name => isTrue (.inr ⟨name, rfl⟩)
  | .builtin builtin =>
    decidable_of_iff (.builtin builtin ∈ standardFunctions.map Prod.snd)
      ⟨.inl, fun h => h.resolve_right fun ⟨_, hne⟩ => nomatch hne⟩

instance (frame : Frame) : Decidable frame.IsPlain :=
  inferInstanceAs (Decidable (∀ entry ∈ frame.functions, entry.2.IsPlain))

/-- What a frame binds, apart from its place in the stack. -/
def Frame.scope (frame : Frame) : Scope :=
  { values := frame.values
    functions := frame.functions.map fun entry => (entry.1, entry.2.form) }

/-- A stop as a fault of the machine. -/
def Scopes.Stop.fault : Stop → Fault
  | .language e => .language e
  | .setting e => .setting e

theorem Table.binds_iff {α : Type} {table : Table α} {name : String} :
    table.binds name = true ↔ name ∈ table.map Prod.fst := by
  simp [Table.binds, List.any_eq_true]

theorem lookup_map_snd {α β : Type} (f : α → β) (table : Table α) (name : String) :
    (table.map fun entry => (entry.1, f entry.2)).lookup name = (table.lookup name).map f := by
  induction table with
  | nil => rfl
  | cons entry rest ih =>
    obtain ⟨key, bound⟩ := entry
    rw [List.map_cons, List.lookup_cons, List.lookup_cons]
    cases name == key with
    | true => rfl
    | false => exact ih

theorem findForm_scopes (frames : List Frame) (name : String) :
    findForm (frames.map Frame.scope) name
      = (frames.findSome? fun frame => frame.functions.lookup name).map Function.form := by
  induction frames with
  | nil => rfl
  | cons frame rest ih =>
    rw [findForm] at ih ⊢
    rw [List.map_cons, List.findSome?_cons, List.findSome?_cons, ih]
    rw [Frame.scope, lookup_map_snd]
    cases frame.functions.lookup name <;> rfl

theorem findValue_scopes (frames : List Frame) (name : String) :
    findValue (frames.map Frame.scope) name
      = frames.findSome? fun frame => frame.values.lookup name := by
  rw [findValue, List.findSome?_map]
  rfl

theorem isPlain_of_find {frames : List Frame} (hplain : ∀ frame ∈ frames, frame.IsPlain)
    {name : String} {fn : Function}
    (h : (frames.findSome? fun frame => frame.functions.lookup name) = some fn) :
    fn.IsPlain := by
  obtain ⟨frame, hmem, hlookup⟩ := List.exists_of_findSome?_eq_some h
  obtain ⟨before, after, htable, -⟩ := List.lookup_eq_some_iff.mp hlookup
  exact hplain frame hmem (name, fn) (htable ▸ List.mem_append_right _ List.mem_cons_self)

/-! ## Runs and outcomes -/

/-- The result of a run that has the given outcome and ends in the given machine. -/
def Scopes.Outcome.result (outcome : Outcome) (machine : Machine) :
    EStateM.Result Fault Machine Yield :=
  match outcome.answer with
  | .ok term => .ok ⟨term, []⟩ machine
  | .error stop => .error stop.fault machine

namespace Scopes.Outcome

variable {outcome : Outcome} {machine after : Machine}

theorem result_eq_ok {result : Yield} (h : outcome.result machine = .ok result after) :
    outcome.answer = .ok result.term ∧ result.actions = [] ∧ machine = after := by
  unfold Outcome.result at h
  cases hanswer : outcome.answer with
  | ok value =>
    rw [hanswer] at h
    cases h
    exact ⟨rfl, rfl, rfl⟩
  | error stop =>
    rw [hanswer] at h
    cases h

theorem result_eq_error {fault : Fault} (h : outcome.result machine = .error fault after) :
    ∃ stop, outcome.answer = .error stop ∧ fault = stop.fault ∧ machine = after := by
  unfold Outcome.result at h
  cases hanswer : outcome.answer with
  | ok value =>
    rw [hanswer] at h
    cases h
  | error stop =>
    rw [hanswer] at h
    cases h
    exact ⟨stop, rfl, rfl, rfl⟩

end Scopes.Outcome

/-- One arena is the other with the value table of one frame replaced. -/
structure Rebinds (context : Context) (values : Table Term) (before after : Arena) : Prop where
  frames_eq : after.frames
    = updateAt (fun frame => { frame with values }) before.frames context.handle
  nextGeneration_le : before.nextGeneration ≤ after.nextGeneration

namespace Rebinds

variable {context : Context} {first second : Table Term} {before middle after : Arena}
  {frame : Frame} {outer : List Frame}

theorem refl (h : context.Shows before frame outer) :
    Rebinds context frame.values before before where
  frames_eq := (updateAt_self h.frameAt?_eq rfl).symm
  nextGeneration_le := Nat.le_refl _

theorem trans (h₁ : Rebinds context first before middle)
    (h₂ : Rebinds context second middle after) : Rebinds context second before after where
  frames_eq := by rw [h₂.frames_eq, h₁.frames_eq, updateAt_updateAt]
  nextGeneration_le := Nat.le_trans h₁.nextGeneration_le h₂.nextGeneration_le

/-- The context stays live, with the new table in its own frame. -/
theorem shows (h : Rebinds context first before after) (hs : context.Shows before frame outer) :
    context.Shows after { frame with values := first } outer :=
  hs.update _ rfl rfl h.frames_eq

theorem size_eq (h : Rebinds context first before after) : after.size = before.size := by
  rw [Arena.size, h.frames_eq, length_updateAt, Arena.size]

end Rebinds

/-- A live context whose chain binds no functions but standard ones and such without a body. -/
structure Context.ShowsPlain (context : Context) (arena : Arena) (frame : Frame)
    (outer : List Frame) : Prop where
  shows : context.Shows arena frame outer
  plain : ∀ shown ∈ frame :: outer, shown.IsPlain

namespace Context.ShowsPlain

variable {context : Context} {arena : Arena} {frame : Frame} {outer : List Frame}

theorem rebind (h : context.ShowsPlain arena frame outer) {values : Table Term} {after : Arena}
    (hr : Rebinds context values arena after) :
    context.ShowsPlain after { frame with values } outer where
  shows := hr.shows h.shows
  plain := by
    intro shown hshown
    rcases List.mem_cons.mp hshown with rfl | hshown
    · exact h.plain frame List.mem_cons_self
    · exact h.plain shown (List.mem_cons_of_mem _ hshown)

theorem push (h : context.ShowsPlain arena frame outer) :
    (arena.push (some context.handle)).1.ShowsPlain (arena.push (some context.handle)).2
      { parent := some context.handle, generation := arena.nextGeneration } (frame :: outer) where
  shows := h.shows.push
  plain := by
    intro shown hshown
    rcases List.mem_cons.mp hshown with rfl | hshown
    · intro entry hentry
      cases hentry
    · exact h.plain shown hshown

end Context.ShowsPlain

/-! ## Runs in sequence -/

namespace Evaluation

variable {context : Context} {before : Machine} {frame : Frame} {outer : List Frame}

/-- A run that started in the machine `before` has the outcome that the scopes give. -/
def Agrees (context : Context) (before : Machine) (run : EStateM.Result Fault Machine Yield)
    (outcome : Outcome) : Prop :=
  ∃ after, run = outcome.result after ∧ after.quit = outcome.quit ∧
    Rebinds context outcome.values before.arena after.arena

theorem bind_of_ok {α β : Type} {x : Eval α} {f : α → Eval β} {machine after : Machine} {a : α}
    (h : x machine = .ok a after) : (x >>= f) machine = f a after := by
  simp only [bind, EStateM.bind, h]

theorem bind_of_error {α β : Type} {x : Eval α} {f : α → Eval β} {machine after : Machine}
    {e : Fault} (h : x machine = .error e after) : (x >>= f) machine = .error e after := by
  simp only [bind, EStateM.bind, h]

theorem note_run (level : Log.Level) (origin : Log.Origin)
    (message : Option String) (machine : Machine) :
    Eval.note level origin message machine = .ok () (machine.note level origin message) := rfl

/-- The later part of a run starts where the earlier part ended. -/
theorem Agrees.bind {x : Eval Yield} {f : Yield → Eval Yield} {first : Outcome}
    {next : Term → Table Term → Bool → Outcome} (hx : Agrees context before (x before) first)
    (hf : ∀ value after, first.answer = .ok value → after.quit = first.quit →
      Rebinds context first.values before.arena after.arena →
      Agrees context after (f ⟨value, []⟩ after) (next value first.values first.quit)) :
    Agrees context before ((x >>= f) before) (first.andThen next) := by
  obtain ⟨middle, hrun, hquit, hrebinds⟩ := hx
  cases hanswer : first.answer with
  | error stop =>
    have herror : first.andThen next = ⟨.error stop, first.values, first.quit⟩ := by
      rw [Outcome.andThen, hanswer]
    rw [Outcome.result, hanswer] at hrun
    rw [herror, bind_of_error hrun]
    exact ⟨middle, rfl, hquit, hrebinds⟩
  | ok value =>
    have hok : first.andThen next = next value first.values first.quit := by
      rw [Outcome.andThen, hanswer]
    obtain ⟨after, hrun', hquit', hrebinds'⟩ := hf value middle hanswer hquit hrebinds
    rw [Outcome.result, hanswer] at hrun
    rw [hok, bind_of_ok hrun]
    exact ⟨after, hrun', hquit', hrebinds.trans hrebinds'⟩

/-- A run that starts after some bindings were made. -/
theorem Agrees.after_rebinds {values : Table Term} {middle : Machine}
    {run : EStateM.Result Fault Machine Yield} {outcome : Outcome}
    (hrebinds : Rebinds context values before.arena middle.arena)
    (h : Agrees context middle run outcome) : Agrees context before run outcome := by
  obtain ⟨after, hrun, hquit, hrebinds'⟩ := h
  exact ⟨after, hrun, hquit, hrebinds.trans hrebinds'⟩

/-- A run that changes nothing agrees with an outcome that changes nothing. -/
theorem Agrees.still (hs : context.Shows before.arena frame outer)
    {run : EStateM.Result Fault Machine Yield} {answer : Except Stop Term}
    (h : run = Outcome.result ⟨answer, frame.values, before.quit⟩ before) :
    Agrees context before run ⟨answer, frame.values, before.quit⟩ :=
  ⟨before, h, rfl, .refl hs⟩

/-- A run whose pending bindings are committed in the end. -/
def settled (context : Context) (x : Eval Yield) : Eval Yield := do
  let result ← x
  commit context result.actions
  return ⟨result.term, []⟩

/-- Where nothing is pending, there is nothing to commit. -/
theorem Agrees.settled {x : Eval Yield} {outcome : Outcome}
    (h : Agrees context before (x before) outcome) :
    Agrees context before (settled context x before) outcome := by
  obtain ⟨after, hrun, hquit, hrebinds⟩ := h
  refine ⟨after, ?_, hquit, hrebinds⟩
  unfold Outcome.result at hrun ⊢
  cases hanswer : outcome.answer with
  | error stop =>
    rw [hanswer] at hrun
    exact bind_of_error hrun
  | ok value =>
    rw [hanswer] at hrun
    exact bind_of_ok hrun

end Evaluation

end ScopeLisp
