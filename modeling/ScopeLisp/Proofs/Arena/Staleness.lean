import ScopeLisp.Proofs.Arena.Lifetime

/-!
# Views of frames that are gone

The frame of a view may be released while the view is still around, and its slot may have been
taken again. Names are looked up and bound through the frame of the view, and that frame is asked
for by generation, so all of this is refused (`Unusable`). A new frame, however, is hung below the
handle of the view, and a handle has no generation: as long as the slot is empty that is refused
too, but once the slot is taken again, the new frame hangs below the frame that took it.

* `unusable_of_gone`: all that goes through the frame of a view is refused.
* `child_eq_of_handle_eq`: what is hung below a view depends on its handle alone.
* `stale_view_refused_except_child`: what a view can still do once its frame is released.
-/

namespace ScopeLisp

namespace Context

/-! ## What goes through the frame of a view -/

/-- Every way to look at the frame of a context, to look names up from it, or to bind names in it
is refused because the frame is gone. -/
structure Unusable (context : Context) (arena : Arena) : Prop where
  values : (context.frame arena).map Frame.values = .error (.staleFrame context.handle)
  functions : (context.frame arena).map Frame.functions = .error (.staleFrame context.handle)
  parent : context.parent arena = .error (.staleFrame context.handle)
  findValue : ∀ name, context.findValue arena name = .error (.staleFrame context.handle)
  findFunction : ∀ name, context.findFunction arena name = .error (.staleFrame context.handle)
  contains : ∀ name, context.contains arena name = .error (.staleFrame context.handle)
  isBound : ∀ name, context.isBound arena name = .error (.staleFrame context.handle)
  setValue : ∀ name value,
    context.setValue arena name value = .error (.misuse (.staleFrame context.handle))
  setFunction : ∀ name fn,
    context.setFunction arena name fn = .error (.misuse (.staleFrame context.handle))

variable {context : Context} {arena : Arena}

theorem unusable_of_gone (h : Arena.Gone context.generation arena) :
    context.Unusable arena := by
  have hframe := Arena.frame_of_gone h
  have hchain : context.chain arena = .error (.staleFrame context.handle) := by
    rw [chain, hframe]
    rfl
  exact {
    values := by rw [hframe]; rfl
    functions := by rw [hframe]; rfl
    parent := by rw [Context.parent, hframe]; rfl
    findValue := fun name => by rw [Context.findValue, hchain]; rfl
    findFunction := fun name => by rw [Context.findFunction, hchain]; rfl
    contains := fun name => by rw [Context.contains, hframe]; rfl
    isBound := fun name => by rw [Context.isBound, hchain]; rfl
    setValue := fun name value => by rw [Context.setValue_eq, hframe]
    setFunction := fun name fn => by rw [Context.setFunction_eq, hframe] }

/-! ## New frames below a view -/

theorem child_eq_of_handle_eq {other : Context} (h : context.handle = other.handle)
    (functions : Table Function) (values : Table Term) :
    context.child arena functions values = other.child arena functions values := by
  rw [child, child, h]

theorem child_of_size_le (h : arena.size ≤ context.handle) (functions : Table Function)
    (values : Table Term) :
    context.child arena functions values
      = .error (.misuse (.invalidParent context.handle)) := by
  have hrange : ¬ (0 ≤ (context.handle : Int) ∧ (context.handle : Int) < arena.size) := by omega
  rw [child, create, Arena.allocate_of_not_range hrange]

/-- Below a live context a new frame without bindings of its own binds what the context binds. -/
theorem exists_child {frame : Frame} (h : context.frame arena = .ok frame) :
    ∃ inner after, context.child arena [] [] = .ok (inner, after) ∧
      ∀ name, inner.findValue after name = context.findValue arena name ∧
        inner.findFunction after name = context.findFunction arena name := by
  obtain ⟨hat, hgeneration⟩ := frame_eq_ok_iff.mp h
  obtain ⟨outer, hchain⟩ := exists_chainAt hat
  have hs : context.Shows arena frame outer := ⟨hat, hgeneration, hchain⟩
  have hrange : 0 ≤ (context.handle : Int) ∧ (context.handle : Int) < arena.size := by
    have := hs.handle_lt
    omega
  refine ⟨(arena.push (some context.handle)).1, (arena.push (some context.handle)).2, ?_,
    fun name => ⟨?_, ?_⟩⟩
  · rw [child, create, Arena.allocate_of_range hrange]
    rfl
  · rw [Context.findValue, Context.findValue, hs.chain_eq, hs.push.chain_eq]
    rfl
  · rw [Context.findFunction, Context.findFunction, hs.chain_eq, hs.push.chain_eq]
    rfl

end Context

namespace Arena

/-! ## Stale views over a history -/

/-- Let a view have been given by an allocation anywhere in a history, and let the history have
gone on to release its frame. Then nothing can be looked up or bound through the view, whether or
not its slot is taken again, and an attempt to bind leaves the arena as it is. A frame hung below
the view is refused exactly as long as the slot is empty. Once another frame is in the slot, it
hangs below that frame, just as if it were hung below a view of it, and it binds what that frame
binds. -/
theorem stale_view_refused_except_child (earlier later : List Operation) {parent : Option Int}
    {context : Context} {arena : Arena}
    (hallocate : (run earlier {}).allocate parent = .ok (context, arena))
    (hreleases : Releases context.handle later arena) :
    context.Unusable (run later arena) ∧
    (∀ name value, (run later arena).step (.setValue context name value) = run later arena) ∧
    (∀ name fn, (run later arena).step (.setFunction context name fn) = run later arena) ∧
    ((run later arena).size ≤ context.handle →
      ∀ functions values, context.child (run later arena) functions values
        = .error (.misuse (.invalidParent context.handle))) ∧
    (context.handle < (run later arena).size →
      ∃ (tenant : Context) (frame : Frame), tenant.handle = context.handle ∧
        tenant.generation ≠ context.generation ∧
        tenant.frame (run later arena) = .ok frame ∧
        (∀ functions values, context.child (run later arena) functions values
          = tenant.child (run later arena) functions values) ∧
        ∃ inner after, context.child (run later arena) [] [] = .ok (inner, after) ∧
          ∀ name, inner.findValue after name = tenant.findValue (run later arena) name ∧
            inner.findFunction after name = tenant.findFunction (run later arena) name) := by
  obtain ⟨-, -, -, -, hgone⟩ := lifetime earlier later hallocate
  have hgone := hgone hreleases
  have hunusable := Context.unusable_of_gone hgone
  refine ⟨hunusable, fun name value => ?_, fun name fn => ?_, Context.child_of_size_le,
    fun htaken => ?_⟩
  · obtain ⟨after, hrefused⟩ := settle_eq_error_iff.mp (hunusable.setValue name value)
    exact step_of_refused hrefused
  · obtain ⟨after, hrefused⟩ := settle_eq_error_iff.mp (hunusable.setFunction name fn)
    exact step_of_refused hrefused
  obtain ⟨frame, hat⟩ := exists_frameAt? htaken
  have hframe : Context.frame ⟨context.handle, frame.generation⟩ (run later arena) = .ok frame :=
    Context.frame_eq_ok_iff.mpr ⟨hat, rfl⟩
  obtain ⟨above, below, hbirths, -⟩ := exists_frameAt?_iff.mp ⟨frame, hat, rfl⟩
  have hmem : frame.birth ∈ (run later arena).births :=
    hbirths ▸ List.mem_append_right _ List.mem_cons_self
  exact ⟨⟨context.handle, frame.generation⟩, frame, rfl, hgone.2 frame.birth hmem, hframe,
    Context.child_eq_of_handle_eq rfl, Context.exists_child hframe⟩

/-- A frame is released and another one, in which `x` is bound, takes its slot: `x` cannot be
looked up through the view of the first frame, but it can be from a new frame below that view. -/
theorem stale_view_child_of_reused_slot :
    ∃ arena, (run [.allocate none] {}).allocate (some 0) = .ok (⟨1, 2⟩, arena) ∧
      Releases 1 [.release 1, .allocate (some 0), .setValue ⟨1, 3⟩ "x" (.number 1)] arena ∧
      Context.findValue ⟨1, 2⟩
          (run [.release 1, .allocate (some 0), .setValue ⟨1, 3⟩ "x" (.number 1)] arena) "x"
        = .error (.staleFrame 1) ∧
      ∃ inner after, Context.child ⟨1, 2⟩
          (run [.release 1, .allocate (some 0), .setValue ⟨1, 3⟩ "x" (.number 1)] arena) [] []
        = .ok (inner, after) ∧ inner.findValue after "x" = .ok (some (.number 1)) := by
  have hallocate : ∃ arena, (run [.allocate none] {}).allocate (some 0) = .ok (⟨1, 2⟩, arena) :=
    ⟨_, rfl⟩
  obtain ⟨arena, hallocate⟩ := hallocate
  have hreleases :
      Releases 1 [.release 1, .allocate (some 0), .setValue ⟨1, 3⟩ "x" (.number 1)] arena := by
    cases hallocate
    exact .inl ⟨rfl, _, rfl⟩
  obtain ⟨hunusable, -, -, -, hchild⟩ :=
    stale_view_refused_except_child [.allocate none] _ hallocate hreleases
  refine ⟨arena, hallocate, hreleases, hunusable.findValue "x", ?_⟩
  cases hallocate
  obtain ⟨tenant, frame, -, -, -, -, inner, after, hinner, -⟩ := hchild (by decide)
  refine ⟨inner, after, hinner, ?_⟩
  cases hinner
  rfl

end Arena

end ScopeLisp
