import ScopeLisp.Machine

/-!
# One frame of a stack

What a change of one frame does to the rest of the stack, and to the chain of the frame that is
changed. A chain goes down the stack only, so a change of its first frame leaves the others
alone, and a frame on top of the stack adds itself to the chain of the frame that it hangs below.

* `frameAt?_updateAt`: the frames after a change.
* `chainAt_updateAt`: the chain of a frame after a change of this frame.
* `Context.Shows`: a context is live and has a given chain. It is kept by changes of its own
  frame (`Context.Shows.update`) and passed on to a new frame below it (`Context.Shows.push`).
-/

namespace ScopeLisp

variable {frames : List Frame} {frame : Frame} {handle : Nat} {change : Frame → Frame}

/-! ## Changing a frame -/

theorem frameAt?_of_length_le (h : frames.length ≤ handle) : frameAt? frames handle = none := by
  induction frames with
  | nil => rfl
  | cons top below ih =>
    simp only [List.length_cons] at h
    have hne : handle ≠ below.length := by omega
    rw [frameAt?, if_neg hne]
    exact ih (by omega)

theorem exists_frameAt? (h : handle < frames.length) :
    ∃ frame, frameAt? frames handle = some frame := by
  induction frames with
  | nil => exact absurd h (Nat.not_lt_zero _)
  | cons top below ih =>
    rw [frameAt?]
    split
    · exact ⟨top, rfl⟩
    · rename_i hne
      rw [List.length_cons] at h
      exact ih (by omega)

theorem frameAt?_of_suffix {all : List Frame} {frame : Frame} (hsuffix : frames <:+ all)
    (h : frameAt? frames handle = some frame) : frameAt? all handle = some frame := by
  obtain ⟨front, rfl⟩ := hsuffix
  obtain ⟨above, below, rfl, hlength⟩ := frameAt?_eq_some_iff.mp h
  exact frameAt?_eq_some_iff.mpr
    ⟨front ++ above, below, (List.append_assoc ..).symm, hlength⟩

theorem frameAt?_updateAt (change : Frame → Frame) (frames : List Frame) (handle other : Nat) :
    frameAt? (updateAt change frames handle) other
      = (frameAt? frames other).map fun frame =>
          if other = handle then change frame else frame := by
  induction frames with
  | nil => rfl
  | cons top below ih =>
    by_cases htop : handle = below.length
    · subst htop
      rw [updateAt, if_pos rfl, frameAt?, frameAt?]
      by_cases hother : other = below.length
      · simp [hother]
      · simp [hother]
    · rw [updateAt, if_neg htop, frameAt?, frameAt?, length_updateAt, ih]
      by_cases hother : other = below.length
      · have hne : other ≠ handle := fun e => htop (e ▸ hother)
        rw [if_pos hother, if_pos hother, Option.map_some, if_neg hne]
      · rw [if_neg hother, if_neg hother]

theorem updateAt_congr {other : Frame → Frame} (hframe : frameAt? frames handle = some frame)
    (h : change frame = other frame) :
    updateAt change frames handle = updateAt other frames handle := by
  induction frames with
  | nil => rfl
  | cons top below ih =>
    rw [frameAt?] at hframe
    rw [updateAt, updateAt]
    split at hframe
    · rename_i htop
      cases hframe
      rw [if_pos htop, if_pos htop, h]
    · rename_i htop
      rw [if_neg htop, if_neg htop, ih hframe]

theorem updateAt_self (hframe : frameAt? frames handle = some frame)
    (h : change frame = frame) : updateAt change frames handle = frames := by
  induction frames with
  | nil => rfl
  | cons top below ih =>
    rw [frameAt?] at hframe
    rw [updateAt]
    split at hframe
    · rename_i htop
      cases hframe
      rw [if_pos htop, h]
    · rename_i htop
      rw [if_neg htop, ih hframe]

theorem updateAt_updateAt (first second : Frame → Frame) (frames : List Frame) (handle : Nat) :
    updateAt second (updateAt first frames handle) handle
      = updateAt (fun frame => second (first frame)) frames handle := by
  induction frames with
  | nil => rfl
  | cons top below ih =>
    by_cases htop : handle = below.length
    · simp [updateAt, htop]
    · simp [updateAt, htop, length_updateAt, ih]

/-! ## Chains -/

theorem exists_chainAt (hframe : frameAt? frames handle = some frame) :
    ∃ outer, chainAt frames handle = frame :: outer := by
  induction frames with
  | nil => cases hframe
  | cons top below ih =>
    rw [frameAt?] at hframe
    rw [chainAt]
    split at hframe
    · rename_i htop
      cases hframe
      rw [if_pos htop]
      exact ⟨_, rfl⟩
    · rename_i htop
      rw [if_neg htop]
      exact ih hframe

theorem chainAt_updateAt {outer : List Frame} (hchain : chainAt frames handle = frame :: outer)
    (hparent : (change frame).parent = frame.parent) :
    chainAt (updateAt change frames handle) handle = change frame :: outer := by
  induction frames with
  | nil => cases hchain
  | cons top below ih =>
    rw [chainAt] at hchain
    rw [updateAt]
    split at hchain
    · rename_i htop
      obtain ⟨rfl, rfl⟩ := List.cons.inj hchain
      rw [if_pos htop, chainAt, if_pos htop, hparent]
    · rename_i htop
      rw [if_neg htop, chainAt, length_updateAt, if_neg htop]
      exact ih hchain

/-! ## Nearest bindings -/

/-- The nearest value that a chain of frames binds to a name. -/
def nearestValue (frames : List Frame) (name : String) : Option Term :=
  frames.findSome? fun frame => frame.values.lookup name

/-- The nearest function that a chain of frames binds to a name. -/
def nearestFunction (frames : List Frame) (name : String) : Option Function :=
  frames.findSome? fun frame => frame.functions.lookup name

theorem nearestValue_cons (frame : Frame) (outer : List Frame) (name : String) :
    nearestValue (frame :: outer) name
      = (frame.values.lookup name).or (nearestValue outer name) := by
  rw [nearestValue, List.findSome?_cons]
  cases frame.values.lookup name <;> rfl

/-! ## Live contexts -/

namespace Context

/-- The context is live: its own frame is the first of the given ones, and they are its chain. -/
structure Shows (context : Context) (arena : Arena) (frame : Frame) (outer : List Frame) :
    Prop where
  frameAt?_eq : frameAt? arena.frames context.handle = some frame
  generation_eq : frame.generation = context.generation
  chainAt_eq : chainAt arena.frames context.handle = frame :: outer

variable {context : Context} {arena : Arena} {outer : List Frame}

theorem frame_eq_ok_iff : context.frame arena = .ok frame ↔
    frameAt? arena.frames context.handle = some frame ∧ frame.generation = context.generation := by
  unfold Context.frame Arena.get
  simp only [Int.natCast_nonneg, if_true, Int.toNat_natCast]
  cases frameAt? arena.frames context.handle with
  | none => simp
  | some found =>
    by_cases hgen : found.generation = context.generation
    · simp only [hgen, if_true, Except.ok.injEq, Option.some.injEq]
      constructor
      · rintro rfl
        exact ⟨rfl, hgen⟩
      · exact fun h => h.1
    · have hne : ¬ (found.generation : Int) = context.generation := by omega
      simp only [hne, if_false, reduceCtorEq, Option.some.injEq, false_iff, not_and]
      rintro rfl
      exact hgen

theorem chain_eq_ok_iff {frames : List Frame} : context.chain arena = .ok frames ↔
    ∃ frame outer, frames = frame :: outer ∧ context.Shows arena frame outer := by
  unfold chain
  constructor
  · intro h
    cases hframe : context.frame arena with
    | error e =>
      rw [hframe] at h
      cases h
    | ok frame =>
      rw [hframe] at h
      obtain ⟨hat, hgen⟩ := frame_eq_ok_iff.mp hframe
      obtain ⟨outer, hchain⟩ := exists_chainAt hat
      have hframes : chainAt arena.frames context.handle = frames := Except.ok.inj h
      exact ⟨frame, outer, hframes.symm.trans hchain, hat, hgen, hchain⟩
  · rintro ⟨frame, outer, rfl, hat, hgen, hchain⟩
    rw [frame_eq_ok_iff.mpr ⟨hat, hgen⟩, ← hchain]
    rfl

theorem Shows.chain_eq (h : context.Shows arena frame outer) :
    context.chain arena = .ok (frame :: outer) :=
  chain_eq_ok_iff.mpr ⟨frame, outer, rfl, h⟩

theorem Shows.frame_eq (h : context.Shows arena frame outer) :
    context.frame arena = .ok frame :=
  frame_eq_ok_iff.mpr ⟨h.frameAt?_eq, h.generation_eq⟩

theorem Shows.findValue_eq (h : context.Shows arena frame outer) (name : String) :
    context.findValue arena name = .ok (nearestValue (frame :: outer) name) := by
  rw [findValue, h.chain_eq]
  rfl

theorem Shows.findFunction_eq (h : context.Shows arena frame outer) (name : String) :
    context.findFunction arena name = .ok (nearestFunction (frame :: outer) name) := by
  rw [findFunction, h.chain_eq]
  rfl

/-- A context keeps its chain when its own frame is changed, up to the change. -/
theorem Shows.update {after : Arena} (change : Frame → Frame)
    (h : context.Shows arena frame outer)
    (hparent : (change frame).parent = frame.parent)
    (hgeneration : (change frame).generation = frame.generation)
    (hafter : after.frames = updateAt change arena.frames context.handle) :
    context.Shows after (change frame) outer where
  frameAt?_eq := by
    rw [hafter, frameAt?_updateAt, h.frameAt?_eq, Option.map_some, if_pos rfl]
  generation_eq := hgeneration.trans h.generation_eq
  chainAt_eq := by
    rw [hafter]
    exact chainAt_updateAt h.chainAt_eq hparent

theorem Shows.handle_lt (h : context.Shows arena frame outer) : context.handle < arena.size := by
  refine Nat.lt_of_not_le fun hle => ?_
  have hnone := frameAt?_of_length_le hle
  rw [h.frameAt?_eq] at hnone
  cases hnone

/-- A new frame below a live context has the chain of the context behind itself. -/
theorem Shows.push (h : context.Shows arena frame outer) :
    (arena.push (some context.handle)).1.Shows (arena.push (some context.handle)).2
      { parent := some context.handle, generation := arena.nextGeneration } (frame :: outer) where
  frameAt?_eq := by simp [Arena.push, Arena.size, frameAt?]
  generation_eq := rfl
  chainAt_eq := by simp [Arena.push, Arena.size, chainAt, h.chainAt_eq]

end Context

end ScopeLisp
