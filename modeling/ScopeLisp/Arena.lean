import ScopeLisp.Function
import ScopeLisp.Term.Basic

/-!
# Frames and their arena

A frame binds names to values and names to functions, and hangs below another frame or below
none. Frames are kept in a stack: a frame is addressed by its height in it, its handle, and only
the last one may be released. Since handles are used again, every frame also has a generation,
which no other frame of the arena ever has.

The stack lists the last frame first, so a frame together with those below it is a suffix of the
list, its handle is the number of frames below it, and following parents is a recursion on the
list.

An arena is changed by computations on it (`Arena.addFrame`, `Arena.dropFrame`), which may be refused
and leave some arena in either case. What they give as functions of the arena (`Arena.allocate`,
`Arena.release`) is all that matters to those who call them, since they leave the arena as it is
when they are refused.

* `frameAt?_eq_some_iff`: the frame at a handle is the one that has that many frames below it.
* `addFrame_error`, `dropFrame_error`: an arena that refuses to change is left as it is.
* `get_allocate`: a frame that was just allocated can be found.
-/

namespace ScopeLisp

/-! ## Tables -/

/-- Names and what they are bound to, in the order in which they were bound. -/
abbrev Table (α : Type) := List (String × α)

/-- Whether a table binds a name. -/
def Table.binds {α : Type} (table : Table α) (name : String) : Bool :=
  table.any fun entry => entry.1 == name

/-- The table after binding one more name. -/
def Table.bind {α : Type} (table : Table α) (name : String) (bound : α) : Table α :=
  table ++ [(name, bound)]

/-! ## Frames -/

/-- One level of scope. -/
structure Frame where
  values : Table Term := []
  functions : Table Function := []
  /-- The handle of the frame that this one hangs below. -/
  parent : Option Nat
  generation : Nat
deriving DecidableEq

/-- Whether a frame binds a name, to a value or to a function. -/
def Frame.binds (frame : Frame) (name : String) : Bool :=
  frame.functions.binds name || frame.values.binds name

/-! ## Stacks of frames -/

/-- The frame at a handle of a stack: the one with that many frames below it. -/
def frameAt? : List Frame → (handle : Nat) → Option Frame
  | [], _ => none
  | frame :: below, handle =>
    if handle = below.length then some frame else frameAt? below handle

/-- The stack with the frame at a handle changed. -/
def updateAt (change : Frame → Frame) : List Frame → (handle : Nat) → List Frame
  | [], _ => []
  | frame :: below, handle =>
    if handle = below.length then change frame :: below
    else frame :: updateAt change below handle

/-- The frame at a handle and the frames that it hangs below, nearest first. -/
def chainAt : List Frame → (handle : Nat) → List Frame
  | [], _ => []
  | frame :: below, handle =>
    if handle = below.length then
      frame :: (match frame.parent with
        | some parent => chainAt below parent
        | none => [])
    else chainAt below handle

theorem frameAt?_eq_some_iff {frames : List Frame} {handle : Nat} {frame : Frame} :
    frameAt? frames handle = some frame ↔
      ∃ above below, frames = above ++ frame :: below ∧ below.length = handle := by
  induction frames with
  | nil => simp [frameAt?]
  | cons top rest ih =>
    unfold frameAt?
    split
    · rename_i h
      constructor
      · intro ht
        exact ⟨[], rest, by simpa using Option.some.inj ht, h.symm⟩
      · rintro ⟨above, below, hf, hb⟩
        cases above with
        | nil => simpa using (List.cons.inj hf).1
        | cons a as =>
          have := congrArg List.length (List.cons.inj hf).2
          simp at this
          omega
    · rename_i h
      rw [ih]
      constructor
      · rintro ⟨above, below, rfl, hb⟩
        exact ⟨top :: above, below, rfl, hb⟩
      · rintro ⟨above, below, hf, hb⟩
        cases above with
        | nil => exact absurd hb (by rw [← (List.cons.inj hf).2]; exact fun e => h e.symm)
        | cons a as => exact ⟨as, below, (List.cons.inj hf).2, hb⟩

theorem length_updateAt (change : Frame → Frame) (frames : List Frame) (handle : Nat) :
    (updateAt change frames handle).length = frames.length := by
  induction frames with
  | nil => rfl
  | cons top rest ih =>
    unfold updateAt
    split <;> simp [ih]

/-! ## Attempts -/

section Attempt

variable {ε σ α : Type} {x : EStateM ε σ α} {s s' : σ}

/-- What a computation gives together with the state after it, or why it fails. -/
def attempt (x : EStateM ε σ α) (s : σ) : Except ε (α × σ) :=
  match x s with
  | .ok a s' => .ok (a, s')
  | .error e _ => .error e

/-- The state after a computation, or why it fails. -/
def settle (x : EStateM ε σ α) (s : σ) : Except ε σ :=
  match x s with
  | .ok _ s' => .ok s'
  | .error e _ => .error e

theorem attempt_eq_ok_iff {a : α} : attempt x s = .ok (a, s') ↔ x s = .ok a s' := by
  unfold attempt
  cases x s <;> simp

theorem attempt_eq_error_iff {e : ε} : attempt x s = .error e ↔ ∃ s', x s = .error e s' := by
  unfold attempt
  cases x s <;> simp

theorem settle_eq_ok_iff : settle x s = .ok s' ↔ ∃ a, x s = .ok a s' := by
  unfold settle
  cases x s <;> simp

theorem settle_eq_error_iff {e : ε} : settle x s = .error e ↔ ∃ s', x s = .error e s' := by
  unfold settle
  cases x s <;> simp

end Attempt

/-! ## Arenas -/

/-- The frames of a session, the last one first, and the generation that the next one gets. -/
structure Arena where
  frames : List Frame := []
  nextGeneration : Nat := 1
deriving DecidableEq

/-- A view of one frame of an arena. It is stale once that frame is released. -/
structure Context where
  handle : Nat
  generation : Nat
deriving DecidableEq

namespace Arena

/-- The number of frames. -/
def size (arena : Arena) : Nat := arena.frames.length

/-- The arena with one more frame below `parent`, and a view of the new frame. -/
def push (arena : Arena) (parent : Option Nat) : Context × Arena :=
  (⟨arena.size, arena.nextGeneration⟩,
    { frames := { parent, generation := arena.nextGeneration } :: arena.frames
      nextGeneration := arena.nextGeneration + 1 })

/-- Adds a frame below a handle, or below none. Only the range of the handle is checked. -/
def addFrame (parent : Option Int) : EStateM Misuse Arena Context := do
  if let some handle := parent then
    let arena ← getThe Arena
    unless 0 ≤ handle ∧ handle < arena.size do
      throw (.invalidParent handle)
  modifyGet fun arena => arena.push (parent.map Int.toNat)

/-- Releases the last frame. Any other one is refused. -/
def dropFrame (handle : Int) : EStateM Misuse Arena Unit := do
  let arena ← getThe Arena
  if handle ≠ arena.size - 1 then
    throw (.releasedOutOfOrder handle)
  match arena.frames with
  | [] => throw .emptyArena
  | _ :: below => set { arena with frames := below }

/-- The arena with one more frame below a handle, or below none, and a view of that frame. -/
def allocate (arena : Arena) (parent : Option Int) : Except Misuse (Context × Arena) :=
  attempt (addFrame parent) arena

/-- The arena without its last frame. -/
def release (arena : Arena) (handle : Int) : Except Misuse Arena :=
  settle (dropFrame handle) arena

/-- The frame at a handle, if it is still the one of that generation. -/
def get (arena : Arena) (handle generation : Int) : Except Misuse Frame :=
  if 0 ≤ handle then
    match frameAt? arena.frames handle.toNat with
    | some frame =>
      if (frame.generation : Int) = generation then .ok frame else .error (.staleFrame handle)
    | none => .error (.staleFrame handle)
  else .error (.staleFrame handle)

/-- Finds the frame at a handle. -/
def find (handle generation : Int) : EStateM Misuse Arena Frame := do
  match (← getThe Arena).get handle generation with
  | .ok frame => return frame
  | .error e => throw e

theorem find_eq (arena : Arena) (handle generation : Int) :
    find handle generation arena = match arena.get handle generation with
      | .ok frame => .ok frame arena
      | .error e => .error e arena := by
  show (match arena.get handle generation with | .ok _ => _ | .error _ => _ : EStateM ..) arena = _
  cases arena.get handle generation <;> rfl

theorem find_ok {arena after : Arena} {handle generation : Int} {frame : Frame}
    (h : find handle generation arena = .ok frame after) : after = arena := by
  rw [find_eq] at h
  split at h <;> cases h
  rfl

theorem find_error {arena after : Arena} {handle generation : Int} {e : Misuse}
    (h : find handle generation arena = .error e after) : after = arena := by
  rw [find_eq] at h
  split at h <;> cases h
  rfl

theorem get_push (arena : Arena) (parent : Option Nat) :
    (arena.push parent).2.get (arena.push parent).1.handle (arena.push parent).1.generation
      = .ok { parent, generation := arena.nextGeneration } := by
  simp [push, get, frameAt?, size]

/-! ### Adding a frame -/

section AddFrame

variable {arena after : Arena} {parent : Option Int} {handle : Int}

theorem addFrame_of_range (h : 0 ≤ handle ∧ handle < arena.size) :
    addFrame (some handle) arena
      = .ok (arena.push (some handle.toNat)).1 (arena.push (some handle.toNat)).2 := by
  show (if 0 ≤ handle ∧ handle < arena.size then _ else _ : EStateM Misuse Arena Context) arena = _
  rw [if_pos h]
  rfl

theorem addFrame_of_not_range (h : ¬ (0 ≤ handle ∧ handle < arena.size)) :
    addFrame (some handle) arena = .error (.invalidParent handle) arena := by
  show (if 0 ≤ handle ∧ handle < arena.size then _ else _ : EStateM Misuse Arena Context) arena = _
  rw [if_neg h]
  rfl

theorem addFrame_error {e : Misuse} (h : addFrame parent arena = .error e after) :
    after = arena := by
  cases parent with
  | none => cases h
  | some handle =>
    by_cases hrange : 0 ≤ handle ∧ handle < arena.size
    · rw [addFrame_of_range hrange] at h
      cases h
    · rw [addFrame_of_not_range hrange] at h
      cases h
      rfl

theorem allocate_of_range (h : 0 ≤ handle ∧ handle < arena.size) :
    arena.allocate (some handle) = .ok (arena.push (some handle.toNat)) :=
  attempt_eq_ok_iff.mpr (addFrame_of_range h)

theorem allocate_of_not_range (h : ¬ (0 ≤ handle ∧ handle < arena.size)) :
    arena.allocate (some handle) = .error (.invalidParent handle) :=
  attempt_eq_error_iff.mpr ⟨arena, addFrame_of_not_range h⟩

/-- A frame is added below none or below a handle in range, as the last one. -/
theorem exists_of_allocate {parent : Option Int} {context : Context}
    (h : arena.allocate parent = .ok (context, after)) :
    ∃ below : Option Nat, parent = below.map Int.ofNat ∧
      (∀ handle, below = some handle → handle < arena.size) ∧
      arena.push below = (context, after) := by
  cases parent with
  | none => exact ⟨none, rfl, nofun, Except.ok.inj h⟩
  | some handle =>
    by_cases hrange : 0 ≤ handle ∧ handle < arena.size
    · rw [allocate_of_range hrange] at h
      refine ⟨some handle.toNat, ?_, ?_, Except.ok.inj h⟩
      · rw [Option.map_some, Int.ofNat_eq_natCast, Int.toNat_of_nonneg hrange.1]
      · rintro _ ⟨⟩
        omega
    · rw [allocate_of_not_range hrange] at h
      cases h

theorem get_allocate {context : Context} (h : arena.allocate parent = .ok (context, after)) :
    ∃ frame, after.get context.handle context.generation = .ok frame := by
  obtain ⟨below, -, -, hpush⟩ := exists_of_allocate h
  cases hpush
  exact ⟨_, get_push arena below⟩

end AddFrame

/-! ### Releasing a frame -/

section DropFrame

variable {arena after : Arena} {handle : Int}

theorem dropFrame_of_ne (h : handle ≠ arena.size - 1) :
    dropFrame handle arena = .error (.releasedOutOfOrder handle) arena := by
  show (if handle ≠ arena.size - 1 then _ else _ : EStateM Misuse Arena Unit) arena = _
  rw [if_pos h]
  rfl

theorem dropFrame_last (arena : Arena) :
    dropFrame (arena.size - 1) arena = match arena.frames with
      | [] => .error .emptyArena arena
      | _ :: below => .ok () { arena with frames := below } := by
  unfold dropFrame
  show (if _ then _ else _ : EStateM Misuse Arena Unit) arena = _
  rw [if_neg fun hne => hne rfl]
  cases arena.frames <;> rfl

theorem dropFrame_error {e : Misuse} (h : dropFrame handle arena = .error e after) :
    after = arena := by
  by_cases hlast : handle = arena.size - 1
  · rw [hlast, dropFrame_last] at h
    split at h <;> cases h
    rfl
  · rw [dropFrame_of_ne hlast] at h
    cases h
    rfl

theorem release_top {top : Frame} {below : List Frame} (h : arena.frames = top :: below) :
    arena.release below.length = .ok { arena with frames := below } := by
  have hlast : (below.length : Int) = arena.size - 1 := by
    rw [size, h, List.length_cons]
    omega
  have hdrop := dropFrame_last arena
  rw [h, ← hlast] at hdrop
  exact settle_eq_ok_iff.mpr ⟨(), hdrop⟩

theorem exists_of_release (h : arena.release handle = .ok after) :
    ∃ top below, arena.frames = top :: below ∧ handle = below.length ∧
      after = { arena with frames := below } := by
  obtain ⟨_, hdrop⟩ := settle_eq_ok_iff.mp h
  by_cases hlast : handle = arena.size - 1
  · rw [hlast, dropFrame_last] at hdrop
    split at hdrop <;> cases hdrop
    rename_i top below hframes
    refine ⟨top, below, hframes, ?_, rfl⟩
    rw [hlast, size, hframes, List.length_cons]
    omega
  · rw [dropFrame_of_ne hlast] at hdrop
    cases hdrop

end DropFrame

end Arena

end ScopeLisp
