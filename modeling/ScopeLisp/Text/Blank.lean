/-!
# White space around settings and console lines

Settings and console lines are trimmed by the white space of Unicode. The reader of expressions
is stricter: it knows only the space, the tab and the line feed (`ScopeLisp.Reader.isBlank`).

* `strip_eq_nil_iff`: a text strips to nothing exactly when all of it is white space.
-/

namespace ScopeLisp.Text

/-- The white space of Unicode: the separators, and the controls that act as such. -/
def isBlank (c : Char) : Bool :=
  let n := c.toNat
  (0x09 ≤ n && n ≤ 0x0D) || (0x1C ≤ n && n ≤ 0x20) || n == 0x85 || n == 0xA0 || n == 0x1680 ||
    (0x2000 ≤ n && n ≤ 0x200A) || n == 0x2028 || n == 0x2029 || n == 0x202F || n == 0x205F ||
    n == 0x3000

/-- The text without the white space at its two ends. -/
def strip (s : List Char) : List Char :=
  ((s.dropWhile isBlank).reverse.dropWhile isBlank).reverse

theorem dropWhile_eq_nil_iff {p : Char → Bool} {s : List Char} :
    s.dropWhile p = [] ↔ ∀ c ∈ s, p c = true := by
  induction s with
  | nil => simp
  | cons c r ih => by_cases h : p c = true <;> simp [h, ih]

theorem strip_eq_nil_iff {s : List Char} : strip s = [] ↔ ∀ c ∈ s, isBlank c = true := by
  unfold strip
  rw [List.reverse_eq_nil_iff, dropWhile_eq_nil_iff, ← dropWhile_eq_nil_iff (s := s)]
  constructor
  · intro h
    cases hs : s.dropWhile isBlank with
    | nil => rfl
    | cons c r =>
      have hc : isBlank c = true := h c (by simp [hs])
      have hne : ¬ isBlank c = true := by
        have := List.head_dropWhile_not isBlank (l := s) (by simp [hs])
        simpa [hs] using this
      exact absurd hc hne
  · intro h
    simp [h]

/-- Whether a line holds nothing but white space. -/
def isBlankLine (line : String) : Bool :=
  line.toList.all isBlank

end ScopeLisp.Text
