import Mathlib.Data.List.Forall2
import ScopeLisp.Reader.Expression

/-!
# Reading under a wider width

The width matters to the reader in one place only: a number literal that does not fit is a fatal
failure. No choice and no repetition goes on from a fatal failure, so an input is read alike under
a narrow width and under a wider one, unless under the narrow one it ends in this very failure.

* `SameUnlessRange`: the relation that every parser keeps and every combinator passes on.
* `sameUnlessRange_term`: it holds of expressions, by induction on the length of the input.
* `parse_widened`: what it comes to for an input as a whole.
-/

namespace ScopeLisp.Reader

variable {α β : Type}

/-- The second outcome is the first one, unless the first one is that a number is out of range. -/
def SameUnlessRange (narrow wide : Outcome α) : Prop :=
  (∃ rest, narrow = failFatally .numberOutOfRange rest) ∨ wide = narrow

theorem SameUnlessRange.rfl {outcome : Outcome α} : SameUnlessRange outcome outcome :=
  .inr (.refl _)

/-! ## Combinators -/

theorem sameUnlessRange_tryEach {source : List Char} {narrow wide : List (Parser α)}
    (h : List.Forall₂ (fun p q => SameUnlessRange (p source) (q source)) narrow wide)
    (failures : List Failure) :
    SameUnlessRange (tryEach source failures narrow) (tryEach source failures wide) := by
  induction h generalizing failures with
  | nil => exact .rfl
  | @cons p q ps qs hfirst _ ih =>
    rcases hfirst with ⟨rest, hrange⟩ | hsame
    · refine .inl ⟨rest, ?_⟩
      rw [tryEach, hrange]
      rfl
    · rw [tryEach, tryEach, hsame]
      split
      · exact .rfl
      · exact .rfl
      · split
        · exact .rfl
        · exact ih _

theorem sameUnlessRange_star {p q : Parser α} (op : β → α → β) (initial : β)
    (source : List Char)
    (h : ∀ s : List Char, s.length ≤ source.length → SameUnlessRange (p s) (q s)) :
    SameUnlessRange (star p op initial source) (star q op initial source) := by
  rw [star_eq p, star_eq q]
  rcases h source (Nat.le_refl _) with ⟨rest, hrange⟩ | hsame
  · refine .inl ⟨rest, ?_⟩
    rw [hrange]
    rfl
  · rw [hsame]
    split
    · exact .rfl
    · exact .rfl
    · rename_i value rest _
      split
      · rename_i hlt
        exact sameUnlessRange_star op _ rest fun s hs => h s (by omega)
      · exact .rfl
termination_by source.length

theorem sameUnlessRange_listOf {p q : Parser Term} (source : List Char)
    (h : ∀ s : List Char, s.length < source.length → SameUnlessRange (p s) (q s)) :
    SameUnlessRange (listOf p source) (listOf q source) := by
  unfold listOf
  split
  · rename_i inside hopen
    have hinside := length_skipBlanks_le source
    rw [hopen, List.length_cons] at hinside
    have hmany : SameUnlessRange (many p inside) (many q inside) :=
      sameUnlessRange_star _ _ inside fun s hs => h s (by omega)
    rcases hmany with ⟨rest, hrange⟩ | hsame
    · refine .inl ⟨rest, ?_⟩
      rw [hrange]
      rfl
    · rw [hsame]
      exact .rfl
  · exact .rfl

/-! ## Expressions -/

section Widths

variable {narrow wide : Width} (hle : narrow.bits ≤ wide.bits)

include hle

theorem sameUnlessRange_number (source : List Char) :
    SameUnlessRange (number (.ok narrow) source) (number (.ok wide) source) := by
  simp only [number]
  split
  · exact .rfl
  · by_cases hholds : narrow.holds (signed (splitSign (skipBlanks source)).1
        (numeralValue ((splitSign (skipBlanks source)).2.takeWhile isDigit))) = true
    · rw [if_pos hholds, if_pos (Width.holds_mono hle hholds)]
      exact .rfl
    · rw [if_neg hholds]
      exact .inl ⟨_, rfl⟩

theorem sameUnlessRange_atom (source : List Char) :
    SameUnlessRange (atom (.ok narrow) source) (atom (.ok wide) source) := by
  refine sameUnlessRange_tryEach ?_ []
  refine .cons (sameUnlessRange_number hle source) ?_
  exact .cons .rfl (.cons .rfl (.cons .rfl .nil))

theorem sameUnlessRange_term (source : List Char) :
    SameUnlessRange (term (.ok narrow) source) (term (.ok wide) source) := by
  induction hn : source.length using Nat.strongRecOn generalizing source with
  | _ n ih =>
    rw [term_eq, term_eq]
    refine sameUnlessRange_tryEach ?_ []
    refine .cons (sameUnlessRange_atom hle source) (.cons ?_ .nil)
    exact sameUnlessRange_listOf source fun s hs => ih s.length (hn ▸ hs) s rfl

/-- An input is read alike under a wider width, unless a number in it is out of range under the
narrow one. -/
theorem parse_widened (source : String) :
    (∃ failure, parse (.ok narrow) source = .error (.failure failure) ∧
      failure.cause = .numberOutOfRange) ∨
    parse (.ok wide) source = parse (.ok narrow) source := by
  rw [parse, parse, parseChars, parseChars]
  rcases sameUnlessRange_term hle source.toList with ⟨rest, hrange⟩ | hsame
  · rw [hrange]
    exact .inl ⟨_, rfl, rfl⟩
  · rw [hsame]
    exact .inr rfl

end Widths

end ScopeLisp.Reader
