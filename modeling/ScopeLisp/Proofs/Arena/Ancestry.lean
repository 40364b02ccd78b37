import ScopeLisp.Proofs.Arena.Lifetime

/-!
# Chains of frames

A frame knows the one that it hangs below by its handle alone. A handle does not say which frame
is meant, for slots are taken again after a release, and yet the frame at the handle of a parent is
always the one that was there when the child was allocated: parents lie below their children in
the stack, and what lies below a frame stays as long as the frame itself.

There are two ways up from a frame. One follows handles through the stack (`Walk`), the other goes
from each view to the view of its parent (`Climb`). Both show the same frames, the ones in the
chain of the context (`Traces`), and which frames these are is settled by the births up to the
frame (`ancestry`), hence for as long as it lives.

* `exists_allocation`: every live frame was allocated somewhere in the history, on the births
  that lie below it now.
* `traces_ancestry`: the ways up from a frame of a sound stack end, and they agree.
* `parents_outlive_children`: the parents and the chains of live frames, over all histories.
-/

namespace ScopeLisp

/-! ## Two ways up -/

/-- The frames that are visited by going to the frame at a handle and from there, again and again,
to the frame at the handle of the parent. The walk ends at a frame that hangs below none. -/
inductive Walk (frames : List Frame) : Option Nat → List Frame → Prop
  | done : Walk frames none []
  | visit {handle : Nat} {frame : Frame} {rest : List Frame} :
    frameAt? frames handle = some frame → Walk frames frame.parent rest →
    Walk frames (some handle) (frame :: rest)

/-- The views that one gets by going from a view to the view of its parent, again and again. -/
inductive Climb (arena : Arena) : Context → List Context → Prop
  | top {context : Context} : context.parent arena = .ok none → Climb arena context [context]
  | up {context outer : Context} {views : List Context} :
    context.parent arena = .ok (some outer) → Climb arena outer views →
    Climb arena context (context :: views)

theorem Climb.unique {arena : Arena} {context : Context} {views views' : List Context}
    (h : Climb arena context views) (h' : Climb arena context views') : views = views' := by
  induction h generalizing views' with
  | top hnone =>
    cases h' with
    | top _ => rfl
    | up hsome _ => cases hnone.symm.trans hsome
  | up hsome _ ih =>
    cases h' with
    | top hnone => cases hnone.symm.trans hsome
    | up hsome' hrest =>
      cases hsome.symm.trans hsome'
      rw [ih hrest]

/-- Both ways up from the frame of a context end. The views of the one show the frames of the
other. -/
structure Traces (context : Context) (arena : Arena) (views : List Context)
    (frames : List Frame) : Prop where
  climb : Climb arena context views
  walk : Walk arena.frames (some context.handle) frames
  shows : views.map (fun view => view.frame arena) = frames.map .ok

namespace Traces

variable {context : Context} {arena : Arena} {frame : Frame}

theorem top (hframe : context.frame arena = .ok frame) (hparent : frame.parent = none) :
    Traces context arena [context] [frame] where
  climb := by
    refine .top ?_
    rw [Context.parent, hframe]
    dsimp only [bind, Except.bind]
    rw [hparent]
    rfl
  walk := .visit (Context.frame_eq_ok_iff.mp hframe).1 (hparent ▸ .done)
  shows := by rw [List.map_singleton, List.map_singleton, hframe]

theorem up {outer : Frame} {handle : Nat} {views : List Context} {frames : List Frame}
    (hframe : context.frame arena = .ok frame) (hparent : frame.parent = some handle)
    (houter : frameAt? arena.frames handle = some outer)
    (h : Traces ⟨handle, outer.generation⟩ arena views frames) :
    Traces context arena (context :: views) (frame :: frames) where
  climb := by
    refine .up ?_ h.climb
    rw [Context.parent, hframe]
    dsimp only [bind, Except.bind]
    rw [hparent]
    dsimp only
    rw [houter]
    rfl
  walk := .visit (Context.frame_eq_ok_iff.mp hframe).1 (hparent ▸ h.walk)
  shows := by rw [List.map_cons, List.map_cons, hframe, h.shows]

end Traces

/-! ## Ancestry -/

/-- The views of the frame at a handle of a stack and of those that it hangs below, as far as the
births tell. -/
def ancestry : List Birth → (handle : Nat) → List Context
  | [], _ => []
  | birth :: below, handle =>
    if handle = below.length then
      ⟨handle, birth.generation⟩ :: (match birth.parent with
        | some parent => ancestry below parent
        | none => [])
    else ancestry below handle

theorem ancestry_of_suffix {births all : List Birth} (hsuffix : births <:+ all) {handle : Nat}
    (h : handle < births.length) : ancestry all handle = ancestry births handle := by
  induction all with
  | nil => rw [List.suffix_nil.mp hsuffix]
  | cons top below ih =>
    rcases List.suffix_cons_iff.mp hsuffix with rfl | hbelow
    · rfl
    · have hne : handle ≠ below.length := by
        have := hbelow.length_le
        omega
      rw [ancestry, if_neg hne, ih hbelow]

/-- Both ways up from a frame of a sound stack end, and they stay within the part of the stack
that ends with the frame. -/
theorem traces_ancestry {arena : Arena} {frames : List Frame} (hsuffix : frames <:+ arena.frames)
    {bound : Nat} (hsound : Arena.Sound (frames.map Frame.birth) bound) {handle : Nat}
    {frame : Frame} (h : frameAt? frames handle = some frame) :
    Traces ⟨handle, frame.generation⟩ arena (ancestry (frames.map Frame.birth) handle)
      (chainAt frames handle) := by
  induction frames generalizing handle frame bound with
  | nil => cases h
  | cons top below ih =>
    have hbelow : below <:+ arena.frames := (List.suffix_cons top below).trans hsuffix
    have hlive := frameAt?_of_suffix hsuffix h
    rw [frameAt?] at h
    rw [List.map_cons, ancestry, chainAt, List.length_map]
    split at h
    · rename_i htop
      cases h
      rw [if_pos htop, if_pos htop]
      have hframe : Context.frame ⟨handle, top.generation⟩ arena = .ok top :=
        Context.frame_eq_ok_iff.mpr ⟨hlive, rfl⟩
      cases hparent : top.parent with
      | none =>
        have hbirth : top.birth.parent = none := hparent
        rw [hbirth]
        exact .top hframe hparent
      | some parent =>
        have hbirth : top.birth.parent = some parent := hparent
        -- parents lie below, so the rest of both ways is within the frames below
        have hlt : parent < below.length := by
          have := hsound.2.1 parent hbirth
          rwa [List.length_map] at this
        obtain ⟨outer, houter⟩ := exists_frameAt? hlt
        rw [hbirth]
        exact .up hframe hparent (frameAt?_of_suffix hbelow houter) (ih hbelow hsound.2.2 houter)
    · rename_i hne
      rw [if_neg hne, if_neg hne]
      exact ih hbelow hsound.2.2 h

namespace Arena

/-! ## Allocations -/

/-- A birth in the stack was there at the beginning of a history, or an allocation of the history
put it on the births that lie below it. -/
theorem exists_allocation {arena : Arena} {history : List Operation} {birth : Birth}
    {below : List Birth} (h : birth :: below <:+ (run history arena).births) :
    birth :: below <:+ arena.births ∨
    ∃ earlier later, history = earlier ++ .allocate (birth.parent.map Int.ofNat) :: later ∧
      (run earlier arena).births = below ∧
      (∃ after, (run earlier arena).allocate (birth.parent.map Int.ofNat)
        = .ok (⟨below.length, birth.generation⟩, after)) ∧
      ∀ handle, birth.parent = some handle → handle < below.length := by
  induction history generalizing arena with
  | nil => exact .inl h
  | cons operation rest ih =>
    rcases ih h with hstep | ⟨earlier, later, rfl, hbelow, hallocate, hparent⟩
    · -- no later operation puts the birth there, so it is there after the first one
      cases move_step arena operation with
      | stay hbirths _ => exact .inl (hbirths ▸ hstep)
      | push parent hoperation hallocate hparent hbirths _ =>
        rw [hbirths] at hstep
        rcases List.suffix_cons_iff.mp hstep with heq | hrest
        · cases heq
          exact .inr ⟨[], rest, hoperation ▸ rfl, rfl, ⟨_, hallocate⟩, hparent⟩
        · exact .inl hrest
      | pop top _ _ hbirths _ =>
        rw [hbirths]
        exact .inl (hstep.trans (List.suffix_cons _ _))
    · exact .inr ⟨operation :: earlier, later, rfl, hbelow, hallocate, hparent⟩

/-- At a handle within a common part of two stacks there is a frame of the same birth. -/
theorem exists_frameAt?_of_suffix {first second : Arena} {births : List Birth}
    (hfirst : births <:+ first.births) (hsecond : births <:+ second.births) {handle : Nat}
    (h : handle < births.length) :
    ∃ one other, frameAt? first.frames handle = some one ∧
      frameAt? second.frames handle = some other ∧ other.birth = one.birth := by
  have hlength : handle < first.frames.length := by
    have := hfirst.length_le
    rw [length_births] at this
    exact Nat.lt_of_lt_of_le h this
  obtain ⟨one, hone⟩ := exists_frameAt? hlength
  obtain ⟨above, below, hbirths, rfl⟩ := exists_frameAt?_iff.mp ⟨one, hone, rfl⟩
  have hpart : one.birth :: below <:+ births :=
    List.suffix_of_suffix_length_le ⟨above, hbirths.symm⟩ hfirst h
  obtain ⟨above', habove⟩ := hpart.trans hsecond
  obtain ⟨other, hother, hbirth⟩ := exists_frameAt?_iff.mpr ⟨above', below, habove.symm, rfl⟩
  exact ⟨one, other, hone, hother, hbirth⟩

/-! ## Chains over a history -/

theorem traces_run (history : List Operation) {context : Context} {frame : Frame}
    (h : context.frame (run history {}) = .ok frame) :
    ∃ frames, context.chain (run history {}) = .ok frames ∧
      Traces context (run history {}) (ancestry (run history {}).births context.handle) frames := by
  obtain ⟨hat, hgeneration⟩ := Context.frame_eq_ok_iff.mp h
  have htraces := traces_ancestry List.suffix_rfl (sound_run history) hat
  rw [hgeneration] at htraces
  refine ⟨chainAt (run history {}).frames context.handle, ?_, htraces⟩
  rw [Context.chain, h]
  rfl

/-- A view that is live at two times of a history has the same ancestry at both. -/
theorem ancestry_run_append (history later : List Operation) {context : Context}
    {frame frame' : Frame} (h : context.frame (run history {}) = .ok frame)
    (hlater : context.frame (run (history ++ later) {}) = .ok frame') :
    ancestry (run (history ++ later) {}).births context.handle
      = ancestry (run history {}).births context.handle := by
  obtain ⟨hat, hgeneration⟩ := Context.frame_eq_ok_iff.mp h
  obtain ⟨above, below, hbirths, hhandle⟩ := exists_frameAt?_iff.mp ⟨frame, hat, rfl⟩
  have hsuffix : frame.birth :: below <:+ (run history {}).births := ⟨above, hbirths.symm⟩
  rw [run_append] at hlater ⊢
  -- a release in between would have left no frame of this generation for the view to find
  have hkept : ¬ Releases below.length later (run history {}) := by
    intro hreleases
    have hgone : Gone frame.generation (run later (run history {})) :=
      gone_run (sound_run history) hsuffix hreleases
    rw [hgeneration] at hgone
    rw [frame_of_gone hgone] at hlater
    cases hlater
  have hlt : context.handle < (frame.birth :: below).length := by
    rw [List.length_cons, hhandle]
    exact Nat.lt_succ_self _
  rw [ancestry_of_suffix (suffix_run hsuffix hkept) hlt, ancestry_of_suffix hsuffix hlt]

/-- Every live frame was allocated by an allocation of the history, and it hangs below what it was
allocated below: nothing, or a smaller handle, at which there is now a frame of the same birth,
that is of the same generation, as when the frame was allocated. And for every live context there
are views, each of the frame that the one before it hangs below, which both ways up from the frame
of the context show: following handles through the stack, which always finds a frame and ends, with
the frames in the chain of the context, and going from view to parent view. They are the same
views for as long as the context is live. -/
theorem parents_outlive_children (history : List Operation) :
    (∀ handle frame, frameAt? (run history {}).frames handle = some frame →
      ∃ earlier later, history = earlier ++ .allocate (frame.parent.map Int.ofNat) :: later ∧
        (∃ after, (run earlier {}).allocate (frame.parent.map Int.ofNat)
          = .ok (⟨handle, frame.generation⟩, after)) ∧
        ∀ parent, frame.parent = some parent → parent < handle ∧
          ∃ held holding, frameAt? (run earlier {}).frames parent = some held ∧
            frameAt? (run history {}).frames parent = some holding ∧
            holding.birth = held.birth) ∧
    ∀ context frame, context.frame (run history {}) = .ok frame →
      ∃ views,
        (∃ frames, context.chain (run history {}) = .ok frames ∧
          Traces context (run history {}) views frames) ∧
        ∀ later frame', context.frame (run (history ++ later) {}) = .ok frame' →
          ∃ frames, context.chain (run (history ++ later) {}) = .ok frames ∧
            Traces context (run (history ++ later) {}) views frames := by
  refine ⟨fun handle frame hat => ?_, fun context frame hframe => ?_⟩
  · obtain ⟨above, below, hbirths, rfl⟩ := exists_frameAt?_iff.mp ⟨frame, hat, rfl⟩
    have hsuffix : frame.birth :: below <:+ (run history {}).births := ⟨above, hbirths.symm⟩
    rcases exists_allocation hsuffix with hempty |
      ⟨earlier, later, hhistory, hbelow, hallocate, hparent⟩
    · exact absurd (List.suffix_nil.mp hempty) (List.cons_ne_nil _ _)
    · refine ⟨earlier, later, hhistory, hallocate, fun parent hsome => ?_⟩
      have hlt := hparent parent hsome
      refine ⟨hlt, exists_frameAt?_of_suffix ?_ ?_ hlt⟩
      · exact hbelow ▸ List.suffix_rfl
      · exact (List.suffix_cons _ _).trans hsuffix
  · refine ⟨_, traces_run history hframe, fun later frame' hlater => ?_⟩
    rw [← ancestry_run_append history later hframe hlater]
    exact traces_run (history ++ later) hlater

/-- A slot is released and taken again, and a third frame is hung below the frame that took it. That
frame is the one it hangs below for good: it is found at the handle now as it was then, and the
views up from the third frame pass it, whatever happens later. -/
theorem parents_of_reused_slot :
    let history : List Operation :=
      [.allocate none, .allocate (some 0), .release 1, .allocate (some 0), .allocate (some 1)]
    (∃ earlier later held holding, history = earlier ++ .allocate (some 1) :: later ∧
      frameAt? (run earlier {}).frames 1 = some held ∧ held.generation = 3 ∧
      frameAt? (run history {}).frames 1 = some holding ∧ holding.birth = held.birth) ∧
    ∀ later frame, Context.frame ⟨2, 4⟩ (run (history ++ later) {}) = .ok frame →
      ∃ frames, Context.chain ⟨2, 4⟩ (run (history ++ later) {}) = .ok frames ∧
        Traces ⟨2, 4⟩ (run (history ++ later) {}) [⟨2, 4⟩, ⟨1, 3⟩, ⟨0, 1⟩] frames := by
  intro history
  obtain ⟨hparents, hviews⟩ := parents_outlive_children history
  refine ⟨?_, ?_⟩
  · have hat : frameAt? (run history {}).frames 2 = some { parent := some 1, generation := 4 } := rfl
    obtain ⟨earlier, later, hhistory, -, hparent⟩ := hparents 2 _ hat
    obtain ⟨-, held, holding, hheld, hholding, hbirth⟩ := hparent 1 rfl
    refine ⟨earlier, later, held, holding, hhistory, hheld, ?_, hholding, hbirth⟩
    cases hholding
    exact (congrArg Birth.generation hbirth).symm
  · have hlive : Context.frame ⟨2, 4⟩ (run history {})
        = .ok { parent := some 1, generation := 4 } := rfl
    obtain ⟨views, ⟨frames, -, htraces⟩, hlater⟩ := hviews _ _ hlive
    have hclimb : Climb (run history {}) ⟨2, 4⟩ [⟨2, 4⟩, ⟨1, 3⟩, ⟨0, 1⟩] :=
      .up rfl (.up rfl (.top rfl))
    rw [← htraces.climb.unique hclimb]
    exact hlater

end Arena

end ScopeLisp
