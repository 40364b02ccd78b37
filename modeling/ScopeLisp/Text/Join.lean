/-!
# Joining pieces of text

* `joined_cons_of_ne_nil`: a piece before others is followed by the separator.
-/

namespace ScopeLisp.Text

/-- The pieces one after the other, with `separator` between neighbours. -/
def joined (separator : List Char) : List (List Char) → List Char
  | [] => []
  | [piece] => piece
  | piece :: next :: rest => piece ++ separator ++ joined separator (next :: rest)

/-- The pieces with one space between neighbours. -/
def spaced (pieces : List (List Char)) : List Char := joined [' '] pieces

@[simp] theorem joined_nil (separator : List Char) : joined separator [] = [] := rfl

@[simp] theorem joined_singleton (separator piece : List Char) :
    joined separator [piece] = piece := rfl

@[simp] theorem joined_cons_cons (separator piece next : List Char) (rest : List (List Char)) :
    joined separator (piece :: next :: rest)
      = piece ++ separator ++ joined separator (next :: rest) := rfl

theorem joined_cons_of_ne_nil (separator piece : List Char) {rest : List (List Char)}
    (h : rest ≠ []) :
    joined separator (piece :: rest) = piece ++ separator ++ joined separator rest := by
  cases rest with
  | nil => exact absurd rfl h
  | cons next rest => rfl

end ScopeLisp.Text
