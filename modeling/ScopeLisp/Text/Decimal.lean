/-!
# Decimal numerals

Integers are written in decimal, with a sign only when negative. A setting may be written more
freely: any decimal digit of Unicode counts, one underscore may stand between two digits, and a
sign of either kind may come first. In both directions there is a limit to the number of digits: an
integer that is longer is not written, and a numeral that is longer is not read. The reader of
expressions is not bound by it, as it adds up the digits of a number one by one.

* `natDigits_ne_nil`: a numeral is never empty.
* `isWritable_iff`: an integer is short enough to be written if its magnitude is below a power of
  ten.
* `digitValue?_lt`: a digit is worth less than ten.
-/

namespace ScopeLisp.Text

/-! ## Writing -/

/-- The ASCII digit worth `n`, for `n` below ten. -/
def digitChar (n : Nat) : Char := Char.ofNat (0x30 + n)

/-- The decimal numeral of a natural number, without leading zeros. -/
def natDigits (n : Nat) : List Char :=
  if n < 10 then [digitChar n] else natDigits (n / 10) ++ [digitChar (n % 10)]
termination_by n

theorem natDigits_ne_nil (n : Nat) : natDigits n ≠ [] := by
  unfold natDigits
  split <;> simp

/-- A number has at most `k` digits if it is below the `k`th power of ten. -/
theorem length_natDigits_le_iff {n k : Nat} (hk : 0 < k) :
    (natDigits n).length ≤ k ↔ n < Nat.pow 10 k := by
  induction k generalizing n with
  | zero => exact absurd hk (Nat.lt_irrefl 0)
  | succ k ih =>
    have hpow : Nat.pow 10 (k + 1) = Nat.pow 10 k * 10 := rfl
    have hpos : 0 < Nat.pow 10 k := Nat.pow_pos (by decide)
    rw [natDigits, hpow]
    split
    · simp only [List.length_singleton]
      omega
    · rename_i hlarge
      rw [List.length_append, List.length_singleton, Nat.add_le_add_iff_right]
      cases k with
      | zero =>
        have hne : (natDigits (n / 10)).length ≠ 0 :=
          fun h => natDigits_ne_nil _ (List.length_eq_zero_iff.mp h)
        have hone : Nat.pow 10 0 = 1 := rfl
        omega
      | succ k =>
        rw [ih (Nat.succ_pos k)]
        omega

/-- The decimal numeral of an integer, however long it is. -/
def intDigits : Int → List Char
  | .ofNat n => natDigits n
  | .negSucc n => '-' :: natDigits (n + 1)

/-- The decimal numeral of an integer that is known to be short: a count of things that are there,
or an integer that was read from a setting. -/
def decimal (n : Int) : String := String.ofList (intDigits n)

/-! ## The limit -/

/-- The most digits that an integer may have when it is written, and a numeral when it is read. -/
def maxDigits : Nat := 4300

/-- The complaint about an integer that has more digits. -/
def overlongMessage : String :=
  "Exceeds the limit (" ++ decimal maxDigits ++ " digits) for integer string conversion; " ++
    "use sys.set_int_max_str_digits() to increase the limit"

/-- Whether an integer is short enough to be written. A sign is no digit. -/
def isWritable (n : Int) : Bool := (natDigits n.natAbs).length ≤ maxDigits

theorem isWritable_iff {n : Int} : isWritable n = true ↔ n.natAbs < Nat.pow 10 maxDigits := by
  rw [isWritable, decide_eq_true_iff, length_natDigits_le_iff (by decide)]

/-- The least number that is too long. -/
theorem isWritable_pow_maxDigits : isWritable (Nat.pow 10 maxDigits : Nat) = false := by
  rw [Bool.eq_false_iff, Ne, isWritable_iff, Int.natAbs_natCast]
  exact Nat.lt_irrefl _

/-- The decimal numeral of an integer that is short enough to be written. -/
def intDigits? (n : Int) : Option (List Char) := if isWritable n then some (intDigits n) else none

/-- The decimal numeral of an integer that is short enough to be written, as a string. -/
def decimal? (n : Int) : Option String := (intDigits? n).map String.ofList

/-! ## Reading -/

/-- The zeros of the decimal digits of Unicode. Each stands at the head of ten consecutive
code points, worth zero to nine. -/
def digitZeros : List Nat :=
  [0x30, 0x660, 0x6F0, 0x7C0, 0x966, 0x9E6, 0xA66, 0xAE6, 0xB66, 0xBE6, 0xC66, 0xCE6, 0xD66,
   0xDE6, 0xE50, 0xED0, 0xF20, 0x1040, 0x1090, 0x17E0, 0x1810, 0x1946, 0x19D0, 0x1A80, 0x1A90,
   0x1B50, 0x1BB0, 0x1C40, 0x1C50, 0xA620, 0xA8D0, 0xA900, 0xA9D0, 0xA9F0, 0xAA50, 0xABF0,
   0xFF10, 0x104A0, 0x10D30, 0x11066, 0x110F0, 0x11136, 0x111D0, 0x112F0, 0x11450, 0x114D0,
   0x11650, 0x116C0, 0x11730, 0x118E0, 0x11950, 0x11C50, 0x11D50, 0x11DA0, 0x16A60, 0x16AC0,
   0x16B50, 0x1D7CE, 0x1D7D8, 0x1D7E2, 0x1D7EC, 0x1D7F6, 0x1E140, 0x1E2F0, 0x1E950, 0x1FBF0]

/-- What a decimal digit of Unicode is worth. -/
def digitValue? (c : Char) : Option Nat :=
  (digitZeros.find? fun first => first ≤ c.toNat && c.toNat < first + 10).map (c.toNat - ·)

theorem digitValue?_lt {c : Char} {n : Nat} (h : digitValue? c = some n) : n < 10 := by
  obtain ⟨first, hz, rfl⟩ := Option.map_eq_some_iff.mp h
  have := List.find?_some hz
  simp only [Bool.and_eq_true, decide_eq_true_eq] at this
  omega

/-- Reads the digits that follow the first one onto `acc`. Before each of them one underscore
may stand. -/
def readMoreDigits (acc : Nat) : List Char → Option Nat
  | [] => some acc
  | '_' :: c :: rest => do readMoreDigits (10 * acc + (← digitValue? c)) rest
  | c :: rest => do readMoreDigits (10 * acc + (← digitValue? c)) rest

/-- Reads an unsigned numeral: at least one digit, single underscores between digits, and no more
digits than the limit. Leading zeros count as digits, underscores do not. -/
def readNatural? (text : List Char) : Option Nat :=
  if maxDigits < (text.filter (· ≠ '_')).length then none
  else
    match text with
    | [] => none
    | c :: rest => do readMoreDigits (← digitValue? c) rest

/-- Reads a numeral with at most one sign in front. -/
def readInteger? : List Char → Option Int
  | '-' :: rest => (readNatural? rest).map fun n => -(n : Int)
  | '+' :: rest => (readNatural? rest).map fun n => (n : Int)
  | text => (readNatural? text).map fun n => (n : Int)

end ScopeLisp.Text
