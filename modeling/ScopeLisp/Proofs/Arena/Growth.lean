import Mathlib.Data.List.Forall2
import ScopeLisp.Proofs.Arena.Lifetime
import ScopeLisp.Proofs.Compositional
import ScopeLisp.Proofs.Session

/-!
# Growing frames

No binding is ever taken back: as long as a frame is in the stack, its tables only get longer
(`Frame.Grows`). An evaluation leaves just the frames that it found, each of them grown, however
it ends and whichever frames it opens on the way (`Arena.Extends`). Over a longer time frames come
and go, and slots are taken again; but what is found in a slot is either a frame that is new since,
or the one that was there before, grown (`Arena.Becomes`).

* `extends_evaluate`: an evaluation, successful or failed, leaves the frames that it found.
* `exists_of_child`: what entering a new context does to an arena.
* `becomes_step`: no operation on an arena takes a binding back.
* `Becomes.exists_frame`: a view that is live at two times is a view of one frame, which has grown.
-/

namespace ScopeLisp

open Session (ending)

/-! ## Frames -/

theorem Table.binds_of_prefix {α : Type} {table larger : Table α} {name : String}
    (hlarger : table <+: larger) (h : table.binds name = true) : larger.binds name = true := by
  obtain ⟨entry, hentry, hname⟩ := List.any_eq_true.mp h
  exact List.any_eq_true.mpr ⟨entry, hlarger.subset hentry, hname⟩

/-- The second frame is the first one at a later time, with what was bound in it since. -/
structure Frame.Grows (frame later : Frame) : Prop where
  birth : later.birth = frame.birth
  values : frame.values <+: later.values
  functions : frame.functions <+: later.functions

namespace Frame.Grows

variable {frame later last : Frame}

theorem refl (frame : Frame) : frame.Grows frame :=
  ⟨rfl, List.prefix_rfl, List.prefix_rfl⟩

theorem trans (h : frame.Grows later) (h' : later.Grows last) : frame.Grows last where
  birth := h'.birth.trans h.birth
  values := h.values.trans h'.values
  functions := h.functions.trans h'.functions

theorem parent (h : frame.Grows later) : later.parent = frame.parent :=
  congrArg Birth.parent h.birth

theorem generation (h : frame.Grows later) : later.generation = frame.generation :=
  congrArg Birth.generation h.birth

theorem binds (h : frame.Grows later) {name : String} (hbinds : frame.binds name = true) :
    later.binds name = true := by
  rw [Frame.binds, Bool.or_eq_true] at hbinds ⊢
  exact hbinds.imp (Table.binds_of_prefix h.functions) (Table.binds_of_prefix h.values)

end Frame.Grows

/-! ## The same frames, grown -/

/-- The second stack has the frames of the first one, each of them grown. -/
abbrev Overgrows (frames later : List Frame) : Prop := List.Forall₂ Frame.Grows frames later

theorem overgrows_updateAt {change : Frame → Frame}
    (h : ∀ frame : Frame, frame.Grows (change frame)) (frames : List Frame) (handle : Nat) :
    Overgrows frames (updateAt change frames handle) := by
  induction frames with
  | nil => exact .nil
  | cons top below ih =>
    rw [updateAt]
    split
    · exact .cons (h top) (List.forall₂_same.mpr fun frame _ => .refl frame)
    · exact .cons (.refl top) ih

namespace Overgrows

variable {frames later last : List Frame}

theorem trans (h : Overgrows frames later) (h' : Overgrows later last) : Overgrows frames last := by
  induction h generalizing last with
  | nil => exact h'
  | cons hgrows _ ih =>
    cases h' with
    | cons hgrows' hrest => exact .cons (hgrows.trans hgrows') (ih hrest)

theorem map_birth (h : Overgrows frames later) :
    later.map Frame.birth = frames.map Frame.birth := by
  induction h with
  | nil => rfl
  | cons hgrows _ ih => rw [List.map_cons, List.map_cons, hgrows.birth, ih]

theorem frameAt? (h : Overgrows frames later) (handle : Nat) :
    Option.Rel Frame.Grows (frameAt? frames handle) (frameAt? later handle) := by
  induction h with
  | nil => exact .none
  | cons hgrows hrest ih =>
    rw [ScopeLisp.frameAt?, ScopeLisp.frameAt?, hrest.length_eq]
    split
    · exact .some hgrows
    · exact ih

end Overgrows

namespace Arena

/-- The second arena has the frames of the first one, each of them grown. -/
structure Extends (before after : Arena) : Prop where
  frames : Overgrows before.frames after.frames
  next_le : before.nextGeneration ≤ after.nextGeneration

variable {before after last : Arena}

namespace Extends

theorem refl (arena : Arena) : arena.Extends arena :=
  ⟨List.forall₂_same.mpr fun frame _ => .refl frame, Nat.le_refl _⟩

theorem trans (h : before.Extends after) (h' : after.Extends last) : before.Extends last where
  frames := h.frames.trans h'.frames
  next_le := Nat.le_trans h.next_le h'.next_le

theorem births_eq (h : before.Extends after) : after.births = before.births :=
  h.frames.map_birth

theorem exists_frame (h : before.Extends after) {context : Context} {frame : Frame}
    (hframe : context.frame before = .ok frame) :
    ∃ later, context.frame after = .ok later ∧ frame.Grows later := by
  obtain ⟨hat, hgeneration⟩ := Context.frame_eq_ok_iff.mp hframe
  have hrel := h.frames.frameAt? context.handle
  rw [hat] at hrel
  cases hlater : frameAt? after.frames context.handle with
  | none =>
    rw [hlater] at hrel
    cases hrel
  | some later =>
    rw [hlater] at hrel
    cases hrel with
    | some hgrows =>
      exact ⟨later, Context.frame_eq_ok_iff.mpr
        ⟨hlater, hgrows.generation.trans hgeneration⟩, hgrows⟩

end Extends

/-! ### Binding names -/

theorem extends_bindIn {context : Context} {isBound : Frame → Bool} {duplicate : EvalError}
    {change : Frame → Frame} (hgrows : ∀ frame : Frame, frame.Grows (change frame))
    (h : context.bindIn isBound duplicate change before = .ok () after) :
    before.Extends after := by
  rw [Context.bindIn_ok h]
  exact ⟨overgrows_updateAt hgrows _ _, Nat.le_refl _⟩

theorem extends_setValue {context : Context} {name : String} {value : Term}
    (h : context.setValue before name value = .ok after) : before.Extends after := by
  obtain ⟨_, hput⟩ := settle_eq_ok_iff.mp h
  rw [Context.putValue] at hput
  refine extends_bindIn (fun _ => ?_) hput
  exact ⟨rfl, List.prefix_append _ _, List.prefix_rfl⟩

theorem extends_setFunction {context : Context} {name : String} {fn : Function}
    (h : context.setFunction before name fn = .ok after) : before.Extends after := by
  obtain ⟨_, hput⟩ := settle_eq_ok_iff.mp h
  rw [Context.putFunction] at hput
  refine extends_bindIn (fun _ => ?_) hput
  exact ⟨rfl, List.prefix_rfl, List.prefix_append _ _⟩

/-- Binding one name after the other. -/
theorem extends_bind {set : Except Fault Arena} {more : Arena → Except Fault Arena}
    (h : set >>= more = .ok after) (hset : ∀ next, set = .ok next → before.Extends next)
    (hmore : ∀ next, more next = .ok after → next.Extends after) : before.Extends after := by
  cases set with
  | ok next => exact (hset next rfl).trans (hmore next h)
  | error fault => cases h

theorem extends_setFunctions {context : Context} {functions : Table Function}
    (h : context.setFunctions functions before = .ok after) : before.Extends after := by
  induction functions generalizing before with
  | nil =>
    cases h
    exact .refl _
  | cons entry rest ih => exact extends_bind h (fun _ => extends_setFunction) fun _ => ih

theorem extends_setValues {context : Context} {values : Table Term}
    (h : context.setValues values before = .ok after) : before.Extends after := by
  induction values generalizing before with
  | nil =>
    cases h
    exact .refl _
  | cons entry rest ih => exact extends_bind h (fun _ => extends_setValue) fun _ => ih

/-- A new context is a view of one more frame, in which names are bound. -/
theorem exists_of_child {context inner : Context} {functions : Table Function}
    {values : Table Term} (h : context.child before functions values = .ok (inner, after)) :
    context.handle < before.size ∧ inner = (before.push (some context.handle)).1 ∧
      (before.push (some context.handle)).2.Extends after := by
  rw [Context.child, Context.create] at h
  split at h
  · cases h
  · rename_i opened arena hallocate
    obtain ⟨below, hbelow, hrange, hpush⟩ := exists_of_allocate hallocate
    obtain rfl : below = some context.handle := by
      cases below with
      | none => cases hbelow
      | some handle => rw [Int.ofNat.inj (Option.some.inj hbelow)]
    rw [hpush]
    cases hfunctions : opened.setFunctions functions arena with
    | error fault =>
      rw [hfunctions] at h
      cases h
    | ok next =>
      rw [hfunctions] at h
      dsimp only [bind, Except.bind] at h
      cases hvalues : opened.setValues values next with
      | error fault =>
        rw [hvalues] at h
        cases h
      | ok final =>
        rw [hvalues] at h
        cases h
        exact ⟨hrange _ rfl, rfl,
          (extends_setFunctions hfunctions).trans (extends_setValues hvalues)⟩

/-! ## Over a longer time -/

/-- What is in a slot of the second arena is new since the first one, or it is the frame that was in
the slot then, grown. -/
structure Becomes (before after : Arena) : Prop where
  next_le : before.nextGeneration ≤ after.nextGeneration
  exists_frameAt? : ∀ handle later, frameAt? after.frames handle = some later →
    later.generation < before.nextGeneration →
    ∃ frame, frameAt? before.frames handle = some frame ∧ frame.Grows later

namespace Becomes

theorem trans (h : before.Becomes after) (h' : after.Becomes last) : before.Becomes last where
  next_le := Nat.le_trans h.next_le h'.next_le
  exists_frameAt? := by
    intro handle final hfinal hold
    obtain ⟨later, hlater, hgrows'⟩ :=
      h'.exists_frameAt? handle final hfinal (Nat.lt_of_lt_of_le hold h.next_le)
    rw [hgrows'.generation] at hold
    obtain ⟨frame, hframe, hgrows⟩ := h.exists_frameAt? handle later hlater hold
    exact ⟨frame, hframe, hgrows.trans hgrows'⟩

theorem exists_frame (h : before.Becomes after) {context : Context} {later : Frame}
    (hlater : context.frame after = .ok later)
    (hold : context.generation < before.nextGeneration) :
    ∃ frame, context.frame before = .ok frame ∧ frame.Grows later := by
  obtain ⟨hat, hgeneration⟩ := Context.frame_eq_ok_iff.mp hlater
  obtain ⟨frame, hframe, hgrows⟩ := h.exists_frameAt? _ later hat (hgeneration ▸ hold)
  exact ⟨frame, Context.frame_eq_ok_iff.mpr
    ⟨hframe, hgrows.generation.symm.trans hgeneration⟩, hgrows⟩

end Becomes

theorem Extends.becomes (h : before.Extends after) : before.Becomes after where
  next_le := h.next_le
  exists_frameAt? := by
    intro handle later hlater _
    have hrel := h.frames.frameAt? handle
    rw [hlater] at hrel
    cases hframe : frameAt? before.frames handle with
    | none =>
      rw [hframe] at hrel
      cases hrel
    | some frame =>
      rw [hframe] at hrel
      cases hrel with
      | some hgrows => exact ⟨frame, rfl, hgrows⟩

theorem becomes_push (arena : Arena) (parent : Option Nat) :
    arena.Becomes (arena.push parent).2 where
  next_le := Nat.le_succ _
  exists_frameAt? := by
    intro handle later hlater hold
    rw [push, frameAt?] at hlater
    split at hlater
    · cases hlater
      exact absurd hold (Nat.lt_irrefl _)
    · exact ⟨later, hlater, .refl later⟩

theorem becomes_pop {top : Frame} {below : List Frame} (h : before.frames = top :: below) :
    before.Becomes { before with frames := below } where
  next_le := Nat.le_refl _
  exists_frameAt? := by
    intro handle later hlater _
    refine ⟨later, frameAt?_of_suffix ?_ hlater, .refl later⟩
    rw [h]
    exact List.suffix_cons top below

theorem becomes_of_perform {operation : Operation}
    (h : perform operation before = .ok () after) : before.Becomes after := by
  cases operation with
  | allocate parent =>
    obtain ⟨context, hadd⟩ := act_eq_ok_iff.mp h
    obtain ⟨below, -, -, hpush⟩ := exists_of_allocate (attempt_eq_ok_iff.mpr hadd)
    cases hpush
    exact becomes_push before below
  | release handle =>
    obtain ⟨top, below, hframes, -, rfl⟩ :=
      exists_of_release (settle_eq_ok_iff.mpr (act_eq_ok_iff.mp h))
    exact becomes_pop hframes
  | get handle generation =>
    obtain ⟨frame, hfind⟩ := act_eq_ok_iff.mp h
    obtain rfl := find_ok hfind
    exact (Extends.refl after).becomes
  | setValue context name value =>
    exact (extends_setValue (settle_eq_ok_iff.mpr ⟨(), h⟩)).becomes
  | setFunction context name fn =>
    exact (extends_setFunction (settle_eq_ok_iff.mpr ⟨(), h⟩)).becomes

theorem becomes_step (arena : Arena) (operation : Operation) :
    arena.Becomes (arena.step operation) := by
  rw [step]
  cases h : perform operation arena with
  | ok _ after => exact becomes_of_perform h
  | error fault after =>
    obtain rfl := perform_error h
    exact (Extends.refl after).becomes

end Arena

/-! ## Evaluation -/

/-- The computation leaves the frames that it found, each of them grown, whether it succeeds or
fails. -/
def Eval.Extending {α : Type} (x : Eval α) : Prop :=
  ∀ machine : Machine, machine.arena.Extends (ending (x machine)).arena

namespace Eval.Extending

variable {α β : Type}

theorem bind {x : Eval α} {f : α → Eval β} (hx : Extending x) (hf : ∀ a, Extending (f a)) :
    Extending (x >>= f) := by
  intro machine
  have hfirst := hx machine
  cases hrun : x machine with
  | ok a after =>
    rw [hrun] at hfirst
    rw [Evaluation.bind_of_ok hrun]
    exact hfirst.trans (hf a after)
  | error fault after =>
    rw [hrun] at hfirst
    rw [Evaluation.bind_of_error hrun]
    exact hfirst

theorem look (query : Arena → Except Misuse α) : Extending (Eval.look query) := by
  intro machine
  unfold Eval.look
  cases query machine.arena <;> exact .refl _

theorem change {update : Arena → Except Fault Arena}
    (h : ∀ arena after, update arena = .ok after → arena.Extends after) :
    Extending (Eval.change update) := by
  intro machine
  unfold Eval.change
  cases hupdate : update machine.arena with
  | ok after => exact h _ _ hupdate
  | error fault => exact .refl _

/-- A frame that was put on top, and all below it, may have grown before it is released. -/
theorem closeFrame_push {machine after : Machine} {parent : Option Nat} {inner : Context}
    {arena : Arena} (hpush : machine.arena.push parent = (inner, arena))
    (h : arena.Extends after.arena) :
    ∃ closed, closeFrame inner after = .ok () closed ∧ machine.arena.Extends closed.arena := by
  cases hpush
  obtain ⟨hframes, hnext⟩ := h
  obtain ⟨top, below, -, hbelow, htop⟩ := List.forall₂_cons_left_iff.mp hframes
  refine ⟨{ after with arena := { after.arena with frames := below } }, ?_, hbelow, ?_⟩
  · have hlast : machine.arena.size = below.length := hbelow.length_eq
    rw [closeFrame, Eval.change, hlast, Arena.release_top htop]
  · exact Nat.le_of_succ_le hnext

/-- The frame of a local scope is on top of those that were there before. The body leaves them all,
so it is this frame that is released in the end. -/
theorem inChild (context : Context) {body : Context → Eval α}
    (h : ∀ inner, Extending (body inner)) : Extending (Eval.inChild context body) := by
  intro machine
  cases hallocate : machine.arena.allocate (some context.handle) with
  | error e =>
    have hopen : openFrame context machine = .error (.misuse e) machine := by
      rw [openFrame, hallocate]
    have hrun : Eval.inChild context body machine = _ := Evaluation.bind_of_error hopen
    rw [hrun]
    exact .refl _
  | ok result =>
    obtain ⟨inner, arena⟩ := result
    have hopen : openFrame context machine = .ok inner { machine with arena } := by
      rw [openFrame, hallocate]
    have hrun : Eval.inChild context body machine = _ := Evaluation.bind_of_ok hopen
    obtain ⟨parent, -, -, hpush⟩ := Arena.exists_of_allocate hallocate
    obtain ⟨closed, hclose, hextends⟩ := closeFrame_push hpush (h inner { machine with arena })
    rw [hrun]
    cases hresult : body inner { machine with arena } with
    | ok a after =>
      rw [hresult, ending] at hclose
      simp only [hclose]
      exact hextends
    | error fault after =>
      rw [hresult, ending] at hclose
      simp only [hclose]
      exact hextends

end Eval.Extending

theorem compositional_extending : Compositional @Eval.Extending where
  pure _ _ := .refl _
  throw _ _ := .refl _
  bind := Eval.Extending.bind
  look := Eval.Extending.look
  note _ _ _ _ := .refl _
  quit _ := .refl _
  check _ := Eval.Extending.change fun _ _ hchecked => by
    rw [eq_of_checked hchecked]
    exact .refl _
  setValue _ _ _ := Eval.Extending.change fun _ _ => Arena.extends_setValue
  inChild := Eval.Extending.inChild

/-- An evaluation, whether it succeeds or fails, leaves the frames that it found, and all their
bindings. -/
theorem extends_evaluate (width : WidthSetting) (term : Term) (context : Context)
    (machine : Machine) :
    machine.arena.Extends (ending (Evaluation.evaluate width term context machine)).arena :=
  compositional_extending.evaluate width term context machine

end ScopeLisp
