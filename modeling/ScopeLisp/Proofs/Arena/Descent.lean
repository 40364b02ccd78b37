import Mathlib.Logic.Relation
import ScopeLisp.Proofs.Arena.Ancestry
import ScopeLisp.Proofs.Arena.Growth

/-!
# Bindings along the parents

A name is bound for a context if it is bound in the frame of the context or in one that can be
reached from there by going from each view to the view of its parent. For as long as a context is
live, the way up from it is the same, and the frames along this way only grow. So a name that is
bound for a live context stays bound for it, and it is bound for every context below it.

* `sees_iff`: the frames along the way up are those in the chain of the context.
* `Sees.below`: what a context sees is seen by every context below it.
* `Sees.kept`: what a live context sees it goes on to see.
* `parent_of_child`: a new context is below the one that it was entered from.
-/

namespace ScopeLisp

namespace Context

/-- Going from a view to the view of its parent, any number of times, leads from the first view to
the second one. -/
def Descends (arena : Arena) : Context → Context → Prop :=
  Relation.ReflTransGen fun inner outer => inner.parent arena = .ok (some outer)

/-- The frame of the context binds the name, or one that the context descends from does. -/
def Sees (context : Context) (arena : Arena) (name : String) : Prop :=
  ∃ view frame, Descends arena context view ∧ view.frame arena = .ok frame ∧
    frame.binds name = true

theorem descends_iff {arena : Arena} {context view : Context} :
    Descends arena context view ↔ context = view ∨
      ∃ outer, context.parent arena = .ok (some outer) ∧ Descends arena outer view :=
  Relation.ReflTransGen.cases_head_iff

theorem parent_eq_some_iff {context outer : Context} {arena : Arena} :
    context.parent arena = .ok (some outer) ↔
      ∃ frame above, context.frame arena = .ok frame ∧ frame.parent = some outer.handle ∧
        outer.frame arena = .ok above := by
  constructor
  · intro h
    unfold parent at h
    cases hframe : context.frame arena with
    | error e =>
      rw [hframe] at h
      cases h
    | ok frame =>
      rw [hframe] at h
      dsimp only [bind, Except.bind] at h
      split at h
      · cases h
      · rename_i handle hparent
        split at h
        · rename_i above hat
          cases h
          exact ⟨frame, above, rfl, hparent, frame_eq_ok_iff.mpr ⟨hat, rfl⟩⟩
        · cases h
  · rintro ⟨frame, above, hframe, hparent, habove⟩
    obtain ⟨hat, hgeneration⟩ := frame_eq_ok_iff.mp habove
    unfold parent
    rw [hframe]
    dsimp only [bind, Except.bind]
    rw [hparent]
    dsimp only
    rw [hat]
    dsimp only
    rw [hgeneration]
    rfl

end Context

/-- The views on the way up from a view are those that it descends from. -/
theorem Climb.mem_iff {arena : Arena} {context : Context} {views : List Context}
    (h : Climb arena context views) {view : Context} :
    view ∈ views ↔ Context.Descends arena context view := by
  induction h with
  | top htop =>
    rw [List.mem_singleton, Context.descends_iff]
    constructor
    · exact fun heq => .inl heq.symm
    · rintro (heq | ⟨outer, hparent, -⟩)
      · exact heq.symm
      · cases htop.symm.trans hparent
  | up hup _ ih =>
    refine List.mem_cons.trans (.trans ?_ Context.descends_iff.symm)
    rw [ih]
    constructor
    · rintro (heq | hrest)
      · exact .inl heq.symm
      · exact .inr ⟨_, hup, hrest⟩
    · rintro (heq | ⟨outer, hparent, hrest⟩)
      · exact .inl heq.symm
      · cases hup.symm.trans hparent
        exact .inr hrest

namespace Context

variable {arena before after : Arena} {context inner outer : Context} {name : String}

theorem sees_iff (hsound : Arena.Sound arena.births arena.nextGeneration) {frames : List Frame}
    (hchain : context.chain arena = .ok frames) :
    context.Sees arena name ↔ ∃ frame ∈ frames, frame.binds name = true := by
  obtain ⟨frame, outer, rfl, hshows⟩ := chain_eq_ok_iff.mp hchain
  have htraces := traces_ancestry List.suffix_rfl hsound hshows.frameAt?_eq
  rw [hshows.generation_eq, hshows.chainAt_eq] at htraces
  have hmem : ∀ found, found ∈ frame :: outer ↔
      ∃ view, Descends arena context view ∧ view.frame arena = .ok found := by
    intro found
    have hframes : (Except.ok found : Except Misuse Frame) ∈ (frame :: outer).map Except.ok ↔
        found ∈ frame :: outer := by
      simp
    rw [← hframes, ← htraces.shows, List.mem_map]
    exact exists_congr fun view => and_congr_left fun _ => htraces.climb.mem_iff
  constructor
  · rintro ⟨view, found, hdescends, hframe, hbinds⟩
    exact ⟨found, (hmem found).mpr ⟨view, hdescends, hframe⟩, hbinds⟩
  · rintro ⟨found, hfound, hbinds⟩
    obtain ⟨view, hdescends, hframe⟩ := (hmem found).mp hfound
    exact ⟨view, found, hdescends, hframe, hbinds⟩

theorem Sees.below (h : outer.Sees arena name) (hdescends : Descends arena inner outer) :
    inner.Sees arena name := by
  obtain ⟨view, frame, houter, hframe, hbinds⟩ := h
  exact ⟨view, frame, hdescends.trans houter, hframe, hbinds⟩

theorem Descends.exists_frame {view : Context} (h : Descends arena context view) {frame : Frame}
    (hframe : context.frame arena = .ok frame) : ∃ found, view.frame arena = .ok found := by
  cases h.cases_tail with
  | inl heq => exact ⟨frame, heq ▸ hframe⟩
  | inr hlast =>
    obtain ⟨_, -, hparent⟩ := hlast
    obtain ⟨_, above, -, -, habove⟩ := parent_eq_some_iff.mp hparent
    exact ⟨above, habove⟩

/-! ## For as long as a context lives -/

theorem generation_lt (hsound : Arena.Sound arena.births arena.nextGeneration) {frame : Frame}
    (hframe : context.frame arena = .ok frame) : context.generation < arena.nextGeneration := by
  obtain ⟨hat, hgeneration⟩ := frame_eq_ok_iff.mp hframe
  obtain ⟨above, below, hbirths, -⟩ := Arena.exists_frameAt?_iff.mp ⟨frame, hat, rfl⟩
  have hmem : frame.birth ∈ arena.births := hbirths ▸ List.mem_append_right _ List.mem_cons_self
  exact hgeneration ▸ hsound.generation_lt frame.birth hmem

/-- A frame hangs below an older one. -/
theorem exists_older (hsound : Arena.Sound arena.births arena.nextGeneration) {frame : Frame}
    {handle parent : Nat} (hat : frameAt? arena.frames handle = some frame)
    (hparent : frame.parent = some parent) :
    ∃ above, frameAt? arena.frames parent = some above ∧
      above.generation < frame.generation := by
  obtain ⟨front, below, hframes, -⟩ := frameAt?_eq_some_iff.mp hat
  have hsuffix : frame :: below <:+ arena.frames := ⟨front, hframes.symm⟩
  obtain ⟨-, hlt, hbelow⟩ := hsound.of_suffix (hsuffix.map Frame.birth)
  have hrange := hlt parent hparent
  rw [List.length_map] at hrange
  obtain ⟨above, habove⟩ := exists_frameAt? hrange
  refine ⟨above, frameAt?_of_suffix ((List.suffix_cons _ _).trans hsuffix) habove, ?_⟩
  obtain ⟨_, _, rfl, -⟩ := frameAt?_eq_some_iff.mp habove
  exact hbelow.generation_lt above.birth
    (List.mem_map_of_mem (List.mem_append_right _ List.mem_cons_self))

section Kept

variable (hbefore : Arena.Sound before.births before.nextGeneration)
  (hafter : Arena.Sound after.births after.nextGeneration) (h : before.Becomes after)
  {later : Frame} (hlater : context.frame after = .ok later)

include hbefore hafter h hlater

theorem parent_kept (hparent : context.parent before = .ok (some outer)) :
    context.parent after = .ok (some outer) := by
  obtain ⟨frame, above, hframe, hhandle, habove⟩ := parent_eq_some_iff.mp hparent
  have hold := generation_lt hbefore hframe
  obtain ⟨_, hframe', hgrows⟩ := h.exists_frame hlater hold
  cases hframe.symm.trans hframe'
  obtain ⟨hat, hgeneration⟩ := frame_eq_ok_iff.mp hlater
  have hhandle' : later.parent = some outer.handle := hgrows.parent.trans hhandle
  obtain ⟨above', hat', hlt⟩ := exists_older hafter hat hhandle'
  -- the frame above is older than the context, so it was there before, in the same slot
  obtain ⟨_, hslot, hgrows'⟩ := h.exists_frameAt? _ above' hat' (by omega)
  obtain ⟨hslot', hgeneration'⟩ := frame_eq_ok_iff.mp habove
  cases hslot.symm.trans hslot'
  exact parent_eq_some_iff.mpr ⟨later, above', hlater, hhandle',
    frame_eq_ok_iff.mpr ⟨hat', hgrows'.generation.trans hgeneration'⟩⟩

theorem Descends.kept {view : Context} (hdescends : Descends before context view) :
    Descends after context view := by
  induction hdescends using Relation.ReflTransGen.head_induction_on generalizing later with
  | refl => exact .refl
  | head hparent _ ih =>
    have hkept := parent_kept hbefore hafter h hlater hparent
    obtain ⟨_, above, -, -, habove⟩ := parent_eq_some_iff.mp hkept
    exact .head hkept (ih habove)

theorem Sees.kept (hsees : context.Sees before name) : context.Sees after name := by
  obtain ⟨view, frame, hdescends, hframe, hbinds⟩ := hsees
  have hkept := hdescends.kept hbefore hafter h hlater
  obtain ⟨found, hfound⟩ := hkept.exists_frame hlater
  obtain ⟨_, hframe', hgrows⟩ := h.exists_frame hfound (generation_lt hbefore hframe)
  cases hframe.symm.trans hframe'
  exact ⟨view, found, hkept, hfound, hgrows.binds hbinds⟩

end Kept

/-! ## New contexts -/

theorem becomes_child {functions : Table Function} {values : Table Term}
    (h : context.child before functions values = .ok (inner, after)) : before.Becomes after := by
  obtain ⟨-, -, hextends⟩ := Arena.exists_of_child h
  exact (Arena.becomes_push before _).trans hextends.becomes

theorem sound_child (hsound : Arena.Sound before.births before.nextGeneration)
    {functions : Table Function} {values : Table Term}
    (h : context.child before functions values = .ok (inner, after)) :
    Arena.Sound after.births after.nextGeneration := by
  obtain ⟨hrange, -, hextends⟩ := Arena.exists_of_child h
  have hpush : Arena.Sound (before.push (some context.handle)).2.births
      (before.push (some context.handle)).2.nextGeneration := by
    refine ⟨Nat.lt_succ_self _, ?_, hsound⟩
    intro handle hhandle
    cases hhandle
    rwa [List.length_map]
  rw [hextends.births_eq]
  exact hpush.mono hextends.next_le

/-- A new context is below the one that it was entered from, if that one is live. -/
theorem parent_of_child {functions : Table Function} {values : Table Term} {frame : Frame}
    (hframe : context.frame before = .ok frame)
    (h : context.child before functions values = .ok (inner, after)) :
    inner.parent after = .ok (some context) := by
  obtain ⟨-, rfl, hextends⟩ := Arena.exists_of_child h
  obtain ⟨hat, hgeneration⟩ := frame_eq_ok_iff.mp hframe
  have hopened : context.frame (before.push (some context.handle)).2 = .ok frame :=
    frame_eq_ok_iff.mpr ⟨frameAt?_of_suffix (List.suffix_cons _ _) hat, hgeneration⟩
  obtain ⟨top, htop, hgrows⟩ := hextends.exists_frame (Arena.get_push before _)
  obtain ⟨above, habove, -⟩ := hextends.exists_frame hopened
  exact parent_eq_some_iff.mpr ⟨top, above, htop, hgrows.parent, habove⟩

end Context

end ScopeLisp
