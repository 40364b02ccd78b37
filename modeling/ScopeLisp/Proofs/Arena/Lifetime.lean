import ScopeLisp.Proofs.Stack

/-!
# The lifetime of a frame

A history of an arena is any sequence of operations on it: frames are allocated, released and
looked up, and names are bound in them, in any order and with any arguments, and an operation may
be refused. What is settled about a frame when it is allocated is its birth: what it hangs below,
and its generation. Operations differ in nothing but what they do to the stack of births: most of
them leave it alone, an allocation puts a birth on top, and a release takes the top one off
(`Move`). So a frame, together with all that lies below it, is in the stack of births until it is
released itself, and as generations are counted up, none like it ever comes back.

* `perform_error`: an operation that is refused leaves the arena as it is.
* `move_step`: what an operation can do to an arena.
* `sound_run`: generations decrease down the stack, and parents lie below.
* `suffix_run`, `gone_run`: the births up to a frame stay until it is released, and then its
  generation is gone for good.
* `handle_resolves_while_live`: a handle and a generation find their frame exactly as long as the
  frame is not released.
-/

namespace ScopeLisp

/-! ## Births -/

/-- What is settled about a frame when it is allocated. -/
structure Birth where
  /-- The handle of the frame that the frame hangs below. -/
  parent : Option Nat
  generation : Nat
deriving DecidableEq

/-- The birth of a frame. -/
def Frame.birth (frame : Frame) : Birth := ⟨frame.parent, frame.generation⟩

theorem map_birth_updateAt {change : Frame → Frame}
    (h : ∀ frame, (change frame).birth = frame.birth) (frames : List Frame) (handle : Nat) :
    (updateAt change frames handle).map Frame.birth = frames.map Frame.birth := by
  induction frames with
  | nil => rfl
  | cons top below ih =>
    rw [updateAt]
    split
    · rw [List.map_cons, List.map_cons, h]
    · rw [List.map_cons, List.map_cons, ih]

namespace Arena

/-- The births of the frames of an arena, the last one first. -/
def births (arena : Arena) : List Birth := arena.frames.map Frame.birth

theorem length_births (arena : Arena) : arena.births.length = arena.size := List.length_map ..

theorem exists_frameAt?_iff {arena : Arena} {handle : Nat} {birth : Birth} :
    (∃ frame, frameAt? arena.frames handle = some frame ∧ frame.birth = birth) ↔
      ∃ above below, arena.births = above ++ birth :: below ∧ below.length = handle := by
  constructor
  · rintro ⟨frame, hat, rfl⟩
    obtain ⟨above, below, hframes, hlength⟩ := frameAt?_eq_some_iff.mp hat
    refine ⟨above.map Frame.birth, below.map Frame.birth, ?_, ?_⟩
    · rw [births, hframes, List.map_append, List.map_cons]
    · rw [List.length_map, hlength]
  · rintro ⟨above, below, hbirths, hlength⟩
    obtain ⟨above', rest, hframes, -, hrest⟩ := List.map_eq_append_iff.mp hbirths
    obtain ⟨frame, below', rfl, hbirth, hbelow⟩ := List.map_eq_cons_iff.mp hrest
    refine ⟨frame, frameAt?_eq_some_iff.mpr ⟨above', below', hframes, ?_⟩, hbirth⟩
    rw [← hlength, ← hbelow, List.length_map]

/-! ## Histories -/

/-- Something that is done to an arena, at once or through a view of one of its frames. -/
inductive Operation where
  | allocate (parent : Option Int)
  | release (handle : Int)
  | get (handle generation : Int)
  | setValue (context : Context) (name : String) (value : Term)
  | setFunction (context : Context) (name : String) (fn : Function)

/-- A computation on an arena of which only what it does to the arena matters. -/
def act {α : Type} (x : EStateM Misuse Arena α) : EStateM Fault Arena Unit := fun arena =>
  match x arena with
  | .ok _ after => .ok () after
  | .error e after => .error (.misuse e) after

/-- Performs an operation, which may be refused. -/
def perform : Operation → EStateM Fault Arena Unit
  | .allocate parent => act (addFrame parent)
  | .release handle => act (dropFrame handle)
  | .get handle generation => act (find handle generation)
  | .setValue context name value => context.putValue name value
  | .setFunction context name fn => context.putFunction name fn

/-- The arena after an operation, whether it is performed or refused. -/
def step (arena : Arena) (operation : Operation) : Arena :=
  match perform operation arena with
  | .ok _ after => after
  | .error _ after => after

/-- The arena after a history. -/
def run (history : List Operation) (arena : Arena) : Arena := history.foldl step arena

theorem run_cons (operation : Operation) (history : List Operation) (arena : Arena) :
    run (operation :: history) arena = run history (arena.step operation) := rfl

theorem run_append (first second : List Operation) (arena : Arena) :
    run (first ++ second) arena = run second (run first arena) :=
  List.foldl_append

section Act

variable {α : Type} {x : EStateM Misuse Arena α} {arena after : Arena}

theorem act_eq_ok_iff : act x arena = .ok () after ↔ ∃ a, x arena = .ok a after := by
  rw [act]
  cases x arena <;> simp

theorem act_error {fault : Fault} (h : act x arena = .error fault after) :
    ∃ e, x arena = .error e after := by
  rw [act] at h
  split at h <;> cases h
  exact ⟨_, ‹_›⟩

end Act

/-- An operation that is refused leaves the arena as it is. -/
theorem perform_error {arena after : Arena} {operation : Operation} {fault : Fault}
    (h : perform operation arena = .error fault after) : after = arena := by
  cases operation with
  | allocate parent =>
    obtain ⟨e, hadd⟩ := act_error h
    exact addFrame_error hadd
  | release handle =>
    obtain ⟨e, hdrop⟩ := act_error h
    exact dropFrame_error hdrop
  | get handle generation =>
    obtain ⟨e, hfind⟩ := act_error h
    exact find_error hfind
  | setValue context name value => exact Context.bindIn_error h
  | setFunction context name fn => exact Context.bindIn_error h

theorem step_of_refused {arena after : Arena} {operation : Operation} {fault : Fault}
    (h : perform operation arena = .error fault after) : arena.step operation = arena := by
  rw [step, h]
  exact perform_error h

theorem step_allocate {arena after : Arena} {parent : Option Int} {context : Context}
    (h : arena.allocate parent = .ok (context, after)) :
    arena.step (.allocate parent) = after := by
  have hperform : perform (.allocate parent) arena = .ok () after :=
    act_eq_ok_iff.mpr ⟨context, attempt_eq_ok_iff.mp h⟩
  rw [step, hperform]

theorem step_release {arena after : Arena} {handle : Int}
    (h : arena.release handle = .ok after) : arena.step (.release handle) = after := by
  have hperform : perform (.release handle) arena = .ok () after :=
    act_eq_ok_iff.mpr (settle_eq_ok_iff.mp h)
  rw [step, hperform]

/-! ## What an operation can do -/

/-- What an operation can do to an arena, as far as the births of its frames go. -/
inductive Move (arena : Arena) (operation : Operation) (after : Arena) : Prop
  | stay : after.births = arena.births → after.nextGeneration = arena.nextGeneration →
    Move arena operation after
  | push (parent : Option Nat) : operation = .allocate (parent.map Int.ofNat) →
    arena.allocate (parent.map Int.ofNat)
      = .ok (⟨arena.births.length, arena.nextGeneration⟩, after) →
    (∀ handle, parent = some handle → handle < arena.births.length) →
    after.births = ⟨parent, arena.nextGeneration⟩ :: arena.births →
    after.nextGeneration = arena.nextGeneration + 1 → Move arena operation after
  | pop (top : Birth) : operation = .release after.births.length →
    arena.release after.births.length = .ok after → arena.births = top :: after.births →
    after.nextGeneration = arena.nextGeneration → Move arena operation after

/-- Binding a name touches the birth of no frame. -/
theorem move_of_updateAt {arena : Arena} {operation : Operation} (change : Frame → Frame)
    (handle : Nat) (h : ∀ frame, (change frame).birth = frame.birth) :
    Move arena operation { arena with frames := updateAt change arena.frames handle } :=
  .stay (map_birth_updateAt h _ _) rfl

theorem move_of_perform {arena after : Arena} {operation : Operation}
    (h : perform operation arena = .ok () after) : Move arena operation after := by
  cases operation with
  | allocate parent =>
    obtain ⟨context, hadd⟩ := act_eq_ok_iff.mp h
    have hallocate := attempt_eq_ok_iff.mpr hadd
    obtain ⟨below, rfl, hrange, hpush⟩ := exists_of_allocate hallocate
    cases hpush
    rw [← length_births] at hallocate hrange
    exact .push below rfl hallocate hrange rfl rfl
  | release handle =>
    have hrelease := settle_eq_ok_iff.mpr (act_eq_ok_iff.mp h)
    obtain ⟨top, below, hframes, rfl, rfl⟩ := exists_of_release hrelease
    have hlength : below.length = (births { arena with frames := below }).length := by
      rw [births, List.length_map]
    rw [hlength] at hrelease ⊢
    exact .pop top.birth rfl hrelease (by rw [births, hframes, List.map_cons, births]) rfl
  | get handle generation =>
    obtain ⟨frame, hfind⟩ := act_eq_ok_iff.mp h
    obtain rfl := find_ok hfind
    exact .stay rfl rfl
  | setValue context name value =>
    rw [Context.bindIn_ok h]
    exact move_of_updateAt _ _ fun _ => rfl
  | setFunction context name fn =>
    rw [Context.bindIn_ok h]
    exact move_of_updateAt _ _ fun _ => rfl

theorem move_step (arena : Arena) (operation : Operation) :
    Move arena operation (arena.step operation) := by
  rw [step]
  cases h : perform operation arena with
  | ok _ after => exact move_of_perform h
  | error fault after =>
    obtain rfl := perform_error h
    exact .stay rfl rfl

/-! ## The order of the stack -/

/-- Every generation is below the given one and, from the top down, below the generation before
it, and every frame hangs below one that lies below it. -/
def Sound : List Birth → (bound : Nat) → Prop
  | [], _ => True
  | birth :: below, bound =>
    birth.generation < bound ∧ (∀ handle, birth.parent = some handle → handle < below.length) ∧
      Sound below birth.generation

namespace Sound

variable {births above below : List Birth} {birth : Birth} {bound : Nat}

theorem mono (h : Sound births bound) {larger : Nat} (hle : bound ≤ larger) :
    Sound births larger := by
  cases births with
  | nil => trivial
  | cons birth below => exact ⟨Nat.lt_of_lt_of_le h.1 hle, h.2⟩

theorem generation_lt (h : Sound births bound) : ∀ birth ∈ births, birth.generation < bound := by
  induction births generalizing bound with
  | nil => exact List.forall_mem_nil _
  | cons top below ih =>
    refine List.forall_mem_cons.mpr ⟨h.1, fun birth hbirth => ?_⟩
    exact Nat.lt_trans (ih h.2.2 birth hbirth) h.1

theorem of_suffix (h : Sound births bound) (hsuffix : below <:+ births) : Sound below bound := by
  induction births generalizing bound with
  | nil =>
    rw [List.suffix_nil.mp hsuffix]
    trivial
  | cons top rest ih =>
    rcases List.suffix_cons_iff.mp hsuffix with rfl | hrest
    · exact h
    · exact ih (h.2.2.mono (Nat.le_of_lt h.1)) hrest

end Sound

theorem sound_step {arena : Arena} (h : Sound arena.births arena.nextGeneration)
    (operation : Operation) :
    Sound (arena.step operation).births (arena.step operation).nextGeneration := by
  cases move_step arena operation with
  | stay hbirths hnext =>
    rw [hbirths, hnext]
    exact h
  | push _ _ _ hparent hbirths hnext =>
    rw [hbirths, hnext]
    exact ⟨Nat.lt_succ_self _, hparent, h⟩
  | pop _ _ _ hbirths hnext =>
    rw [hbirths] at h
    rw [hnext]
    exact h.of_suffix (List.suffix_cons _ _)

theorem sound_run_of {arena : Arena} (h : Sound arena.births arena.nextGeneration)
    (history : List Operation) :
    Sound (run history arena).births (run history arena).nextGeneration := by
  induction history generalizing arena with
  | nil => exact h
  | cons operation rest ih => exact ih (sound_step h operation)

theorem sound_run (history : List Operation) :
    Sound (run history {}).births (run history {}).nextGeneration := by
  refine sound_run_of ?_ history
  show Sound [] _
  trivial

/-! ## Until a frame is released -/

/-- The operation releases the frame at a handle. -/
def ReleasesNow (handle : Nat) (operation : Operation) (arena : Arena) : Prop :=
  operation = .release handle ∧ ∃ after, arena.release handle = .ok after

/-- Some operation of a history that starts in the arena releases the frame at a handle. -/
def Releases (handle : Nat) : (history : List Operation) → Arena → Prop
  | [], _ => False
  | operation :: rest, arena =>
    ReleasesNow handle operation arena ∨ Releases handle rest (arena.step operation)

/-- No frame has the generation, and none will get it. -/
def Gone (generation : Nat) (arena : Arena) : Prop :=
  generation < arena.nextGeneration ∧ ∀ birth ∈ arena.births, birth.generation ≠ generation

section Lifetime

variable {arena : Arena} {birth : Birth} {below : List Birth}

theorem suffix_step (h : birth :: below <:+ arena.births) {operation : Operation}
    (hkept : ¬ ReleasesNow below.length operation arena) :
    birth :: below <:+ (arena.step operation).births := by
  cases move_step arena operation with
  | stay hbirths _ =>
    rw [hbirths]
    exact h
  | push _ _ _ _ hbirths _ =>
    rw [hbirths]
    exact h.trans (List.suffix_cons _ _)
  | pop _ hoperation hrelease hbirths _ =>
    rw [hbirths] at h
    rcases List.suffix_cons_iff.mp h with heq | hrest
    · -- the frame itself is on top, so it is the one that is released
      rw [← (List.cons.inj heq).2] at hoperation hrelease
      exact absurd ⟨hoperation, _, hrelease⟩ hkept
    · exact hrest

theorem suffix_run (h : birth :: below <:+ arena.births) {history : List Operation}
    (hkept : ¬ Releases below.length history arena) :
    birth :: below <:+ (run history arena).births := by
  induction history generalizing arena with
  | nil => exact h
  | cons operation rest ih =>
    have hnow : ¬ ReleasesNow below.length operation arena := fun hr => hkept (.inl hr)
    exact ih (suffix_step h hnow) fun hr => hkept (.inr hr)

theorem gone_of_releasesNow (hsound : Sound arena.births arena.nextGeneration)
    (h : birth :: below <:+ arena.births) {operation : Operation}
    (hreleases : ReleasesNow below.length operation arena) :
    Gone birth.generation (arena.step operation) := by
  obtain ⟨rfl, after, hrelease⟩ := hreleases
  have hstep : arena.step (.release below.length) = after := step_release hrelease
  obtain ⟨top, rest, hframes, hlength, rfl⟩ := exists_of_release hrelease
  rw [hstep]
  have hbirths : arena.births = top.birth :: rest.map Frame.birth := by
    rw [births, hframes, List.map_cons]
  -- as many births lie below the frame as below the top, so the frame is on top
  rw [hbirths] at h hsound
  have heq : birth :: below = top.birth :: rest.map Frame.birth := by
    refine h.eq_of_length ?_
    rw [List.length_cons, List.length_cons, List.length_map]
    omega
  cases heq
  exact ⟨hsound.1, fun other hother => Nat.ne_of_lt (hsound.2.2.generation_lt other hother)⟩

theorem gone_step {generation : Nat} (h : Gone generation arena) (operation : Operation) :
    Gone generation (arena.step operation) := by
  cases move_step arena operation with
  | stay hbirths hnext => exact ⟨hnext ▸ h.1, hbirths ▸ h.2⟩
  | push _ _ _ _ hbirths hnext =>
    refine ⟨hnext ▸ Nat.lt_succ_of_lt h.1, ?_⟩
    rw [hbirths]
    exact List.forall_mem_cons.mpr ⟨Nat.ne_of_gt h.1, h.2⟩
  | pop _ _ _ hbirths hnext =>
    refine ⟨hnext ▸ h.1, fun other hother => h.2 other ?_⟩
    rw [hbirths]
    exact List.mem_cons_of_mem _ hother

theorem gone_run_of_gone {generation : Nat} (h : Gone generation arena)
    (history : List Operation) : Gone generation (run history arena) := by
  induction history generalizing arena with
  | nil => exact h
  | cons operation rest ih => exact ih (gone_step h operation)

theorem gone_run (hsound : Sound arena.births arena.nextGeneration)
    (h : birth :: below <:+ arena.births) {history : List Operation}
    (hreleases : Releases below.length history arena) :
    Gone birth.generation (run history arena) := by
  induction history generalizing arena with
  | nil => exact hreleases.elim
  | cons operation rest ih =>
    by_cases hnow : ReleasesNow below.length operation arena
    · exact gone_run_of_gone (gone_of_releasesNow hsound h hnow) rest
    · exact ih (sound_step hsound operation) (suffix_step h hnow) (hreleases.resolve_left hnow)

end Lifetime

/-! ## Looking a frame up -/

theorem frame_of_suffix {arena : Arena} {birth : Birth} {below : List Birth}
    (h : birth :: below <:+ arena.births) :
    ∃ frame, Context.frame ⟨below.length, birth.generation⟩ arena = .ok frame ∧
      frame.birth = birth := by
  obtain ⟨above, hbirths⟩ := h
  obtain ⟨frame, hat, rfl⟩ := exists_frameAt?_iff.mpr ⟨above, below, hbirths.symm, rfl⟩
  exact ⟨frame, Context.frame_eq_ok_iff.mpr ⟨hat, rfl⟩, rfl⟩

theorem frame_of_gone {arena : Arena} {context : Context} (h : Gone context.generation arena) :
    context.frame arena = .error (.staleFrame context.handle) := by
  unfold Context.frame get
  rw [if_pos (Int.natCast_nonneg _), Int.toNat_natCast]
  cases hat : frameAt? arena.frames context.handle with
  | none => rfl
  | some frame =>
    obtain ⟨above, below, hbirths, -⟩ := exists_frameAt?_iff.mp ⟨frame, hat, rfl⟩
    have hmem : frame.birth ∈ arena.births := hbirths ▸ List.mem_append_right _ List.mem_cons_self
    have hne : ¬ (frame.generation : Int) = context.generation := by
      have hgeneration : frame.generation ≠ context.generation := h.2 frame.birth hmem
      omega
    dsimp only
    rw [if_neg hne]

/-! ## From its allocation on -/

theorem exists_birth_of_allocate {arena after : Arena} {parent : Option Int} {context : Context}
    (h : arena.allocate parent = .ok (context, after)) :
    ∃ birth : Birth, birth.parent.map Int.ofNat = parent ∧
      context = ⟨arena.births.length, birth.generation⟩ ∧
      birth.generation = arena.nextGeneration ∧ after.births = birth :: arena.births := by
  obtain ⟨below, rfl, -, hpush⟩ := exists_of_allocate h
  cases hpush
  refine ⟨⟨below, arena.nextGeneration⟩, rfl, ?_, rfl, rfl⟩
  rw [length_births]

theorem sound_of_allocate (earlier : List Operation) {parent : Option Int} {context : Context}
    {arena : Arena} (h : (run earlier {}).allocate parent = .ok (context, arena)) :
    Sound arena.births arena.nextGeneration :=
  step_allocate h ▸ sound_step (sound_run earlier) (.allocate parent)

/-- A frame that was allocated in a history lies on the births that were there, until the history
goes on to release it. From then on its generation is gone. -/
theorem lifetime (earlier later : List Operation) {parent : Option Int} {context : Context}
    {arena : Arena} (hallocate : (run earlier {}).allocate parent = .ok (context, arena)) :
    ∃ birth : Birth, birth.parent.map Int.ofNat = parent ∧
      context = ⟨(run earlier {}).births.length, birth.generation⟩ ∧
      (¬ Releases context.handle later arena →
        birth :: (run earlier {}).births <:+ (run later arena).births) ∧
      (Releases context.handle later arena → Gone context.generation (run later arena)) := by
  have hsound := sound_of_allocate earlier hallocate
  obtain ⟨birth, hparent, rfl, -, hbirths⟩ := exists_birth_of_allocate hallocate
  have hsuffix : birth :: (run earlier {}).births <:+ arena.births := hbirths ▸ List.suffix_rfl
  exact ⟨birth, hparent, rfl, suffix_run hsuffix, gone_run hsound hsuffix⟩

theorem generation_lt_of_allocate (earlier later : List Operation) {parent : Option Int}
    {context : Context} {arena : Arena}
    (hallocate : (run earlier {}).allocate parent = .ok (context, arena)) :
    context.generation < (run later arena).nextGeneration := by
  have hsound := sound_run_of (sound_of_allocate earlier hallocate) later
  obtain ⟨birth, -, rfl, hkept, hgone⟩ := lifetime earlier later hallocate
  by_cases hreleases : Releases (run earlier {}).births.length later arena
  · exact (hgone hreleases).1
  · exact hsound.generation_lt birth ((hkept hreleases).mem List.mem_cons_self)

/-- Let an allocation anywhere in a history have given a handle and a generation. Whatever the
history goes on to do, they find a frame if and only if no operation since has released the handle.
The frame that they find is the one that was allocated: it has the parent and the generation that it
got then, and it lies on the very births on which it was put. No later allocation gives the same
generation. And an operation that is refused, wherever in a history that is, leaves the frames and
the generation that comes next as they were, so that the history goes on as it would go on without
it. -/
theorem handle_resolves_while_live (earlier later : List Operation) {parent : Option Int}
    {context : Context} {arena : Arena}
    (hallocate : (run earlier {}).allocate parent = .ok (context, arena)) :
    ((∃ frame, (run later arena).get context.handle context.generation = .ok frame) ↔
      ¬ Releases context.handle later arena) ∧
    (∀ frame, (run later arena).get context.handle context.generation = .ok frame →
      frame.parent.map Int.ofNat = parent ∧ frame.generation = context.generation ∧
      frameAt? (run later arena).frames context.handle = some frame ∧
      frame.birth :: (run earlier {}).births <:+ (run later arena).births) ∧
    (∀ parent' other arena', (run later arena).allocate parent' = .ok (other, arena') →
      other.generation ≠ context.generation) ∧
    ∀ history operation fault after, perform operation (run history {}) = .error fault after →
      after = run history {} ∧
        ∀ rest, run (history ++ operation :: rest) {} = run (history ++ rest) {} := by
  have hbound := generation_lt_of_allocate earlier later hallocate
  obtain ⟨birth, rfl, rfl, hkept, hgone⟩ := lifetime earlier later hallocate
  have hlive : ∀ frame, Context.frame ⟨(run earlier {}).births.length, birth.generation⟩
      (run later arena) = .ok frame → ¬ Releases (run earlier {}).births.length later arena := by
    intro frame hframe hreleases
    rw [frame_of_gone (hgone hreleases)] at hframe
    cases hframe
  refine ⟨⟨fun ⟨frame, hframe⟩ => hlive frame hframe, fun hnot => ?_⟩, fun frame hframe => ?_,
    fun parent' other arena' hother => ?_,
    fun history operation fault after hfault => ⟨perform_error hfault, fun rest => ?_⟩⟩
  · obtain ⟨frame, hframe, -⟩ := frame_of_suffix (hkept hnot)
    exact ⟨frame, hframe⟩
  · have hsuffix := hkept (hlive frame hframe)
    obtain ⟨found, hfound, rfl⟩ := frame_of_suffix hsuffix
    cases hfound.symm.trans hframe
    exact ⟨rfl, rfl, (Context.frame_eq_ok_iff.mp hframe).1, hsuffix⟩
  · obtain ⟨birth', -, rfl, hgeneration, -⟩ := exists_birth_of_allocate hother
    rw [hgeneration]
    exact Nat.ne_of_gt hbound
  · rw [run_append, run_append, run_cons, step_of_refused hfault]

/-- A frame is released and its slot is taken again: the handle with the old generation finds
nothing. The release of the first frame before that is refused, as it is not the last one, and
leaves the arena as it is. -/
theorem handle_of_reused_slot :
    ∃ arena, (run [.allocate none] {}).allocate (some 0) = .ok (⟨1, 2⟩, arena) ∧
      perform (.release 0) arena = .error (.misuse (.releasedOutOfOrder 0)) arena ∧
      Releases 1 [.release 0, .release 1, .allocate (some 0)] arena ∧
      (run [.release 0, .release 1, .allocate (some 0)] arena).size = 2 ∧
      ¬ ∃ frame,
        (run [.release 0, .release 1, .allocate (some 0)] arena).get 1 2 = .ok frame := by
  have hallocate : ∃ arena, (run [.allocate none] {}).allocate (some 0) = .ok (⟨1, 2⟩, arena) :=
    ⟨_, rfl⟩
  obtain ⟨arena, hallocate⟩ := hallocate
  have hreleases : Releases 1 [.release 0, .release 1, .allocate (some 0)] arena := by
    cases hallocate
    exact .inr (.inl ⟨rfl, _, rfl⟩)
  obtain ⟨hlive, -, -, hrefused⟩ := handle_resolves_while_live [.allocate none]
    [.release 0, .release 1, .allocate (some 0)] hallocate
  refine ⟨arena, hallocate, ?_, hreleases, ?_, fun hfound => hlive.mp hfound hreleases⟩
  · have hrun : run [.allocate none, .allocate (some 0)] {} = arena := step_allocate hallocate
    have hrelease : ∃ after, perform (.release 0) (run [.allocate none, .allocate (some 0)] {})
        = .error (.misuse (.releasedOutOfOrder 0)) after := ⟨_, rfl⟩
    obtain ⟨after, hrelease⟩ := hrelease
    obtain ⟨rfl, -⟩ := hrefused _ _ _ _ hrelease
    rwa [hrun] at hrelease
  · cases hallocate
    rfl

end Arena

end ScopeLisp
