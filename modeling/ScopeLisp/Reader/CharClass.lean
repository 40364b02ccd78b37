/-!
# Classes of characters

The reader knows ASCII classes only. Each class is given on single characters; a piece of text of
another length can be classified too, by the rules that a class of letters is an interval in the
order of code points and that the other classes are the runs of their own listing.

* `isAlphaText_singleton`, `isDigitText_singleton`, `isNameStartText_singleton`,
  `isNameCharText_singleton`, `isBlankText_singleton`: on one character the two agree.
-/

namespace ScopeLisp.Reader

/-! ## Characters -/

/-- The blanks of the reader. -/
def blanks : List Char := [' ', '\t', '\n']

/-- The decimal digits. -/
def digits : List Char := ['0', '1', '2', '3', '4', '5', '6', '7', '8', '9']

/-- The symbols that may stand in a name. -/
def nameSymbols : List Char := ['_', '+', '-', '*', '/', '%', '^', '@', '?', '!']

/-- Whether a character is blank for the reader. -/
def isBlank (c : Char) : Bool := blanks.contains c

/-- Whether a character is a decimal digit. -/
def isDigit (c : Char) : Bool := digits.contains c

/-- Whether a character is an ASCII letter. -/
def isAlpha (c : Char) : Bool := ('a' ≤ c && c ≤ 'z') || ('A' ≤ c && c ≤ 'Z')

/-- Whether a name may begin with a character. -/
def isNameStart (c : Char) : Bool := isAlpha c || nameSymbols.contains c

/-- Whether a name may go on with a character. -/
def isNameChar (c : Char) : Bool := isNameStart c || isDigit c

/-- The input after its leading blanks. -/
def skipBlanks (source : List Char) : List Char := source.dropWhile isBlank

/-! ## Pieces of text -/

/-- The order of texts by their code points, a text being before its extensions. -/
def lexLe : List Char → List Char → Bool
  | [], _ => true
  | _ :: _, [] => false
  | a :: as, b :: bs => a < b || (a == b && lexLe as bs)

/-- Whether `piece` stands somewhere in `text` without a gap. -/
def isRunOf (piece : List Char) : (text : List Char) → Bool
  | [] => piece.isEmpty
  | c :: rest => piece.isPrefixOf (c :: rest) || isRunOf piece rest

/-- Whether a piece of text is not empty and stands in a listing without a gap. -/
def isSomeRunOf (piece listing : List Char) : Bool := !piece.isEmpty && isRunOf piece listing

/-- Whether a piece of text lies between the first and the last letter of one case. -/
def isAlphaText (piece : List Char) : Bool :=
  (lexLe ['a'] piece && lexLe piece ['z']) || (lexLe ['A'] piece && lexLe piece ['Z'])

/-- Whether a piece of text is a run of the listing of digits. -/
def isDigitText (piece : List Char) : Bool := isSomeRunOf piece digits

/-- Whether a piece of text is a run of the listing of blanks. -/
def isBlankText (piece : List Char) : Bool := isSomeRunOf piece blanks

/-- Whether a piece of text is like the beginning of a name. -/
def isNameStartText (piece : List Char) : Bool :=
  !piece.isEmpty && (isAlphaText piece || isRunOf piece nameSymbols)

/-- Whether a piece of text is like the continuation of a name. -/
def isNameCharText (piece : List Char) : Bool := isNameStartText piece || isDigitText piece

theorem isRunOf_singleton (c : Char) (listing : List Char) :
    isRunOf [c] listing = listing.contains c := by
  induction listing with
  | nil => rfl
  | cons d rest ih => simp [isRunOf, List.isPrefixOf, ih, Bool.beq_eq_decide_eq]

theorem lexLe_singleton (a b : Char) : lexLe [a] [b] = decide (a ≤ b) := by
  rw [Bool.eq_iff_iff]
  simp [lexLe, Std.le_iff_lt_or_eq]

theorem isAlphaText_singleton (c : Char) : isAlphaText [c] = isAlpha c := by
  simp only [isAlphaText, isAlpha, lexLe_singleton]

theorem isDigitText_singleton (c : Char) : isDigitText [c] = isDigit c := by
  simp [isDigitText, isSomeRunOf, isRunOf_singleton, isDigit]

theorem isBlankText_singleton (c : Char) : isBlankText [c] = isBlank c := by
  simp [isBlankText, isSomeRunOf, isRunOf_singleton, isBlank]

theorem isNameStartText_singleton (c : Char) : isNameStartText [c] = isNameStart c := by
  simp [isNameStartText, isAlphaText_singleton, isRunOf_singleton, isNameStart]

theorem isNameCharText_singleton (c : Char) : isNameCharText [c] = isNameChar c := by
  simp [isNameCharText, isNameStartText_singleton, isDigitText_singleton, isNameChar]

end ScopeLisp.Reader
