import ScopeLisp.Text.Hidden

/-!
# Quoted text for messages and logs

Text that goes into a message or a log line is quoted so that every character of it can be seen.
The single quote is used, unless the text holds single quotes and no double ones. A backslash and
the quote in use are escaped, and a character that would not show is written by its code.

* `escape_of_printable`: a printable character other than the quote and the backslash stands
  for itself.
-/

namespace ScopeLisp.Text

/-- Whether a character shows when it is printed. The ASCII space does. -/
def isPrintable (c : Char) : Bool :=
  if c.toNat < 0x80 then 0x20 ≤ c.toNat && c.toNat != 0x7F else !isHidden c

/-- The lower-case hexadecimal digit worth `n`, for `n` below sixteen. -/
def hexChar (n : Nat) : Char :=
  if n < 10 then Char.ofNat (0x30 + n) else Char.ofNat (0x57 + n)

/-- The last `count` hexadecimal digits of `n`. -/
def hexDigits (n : Nat) : (count : Nat) → List Char
  | 0 => []
  | count + 1 => hexDigits (n / 16) count ++ [hexChar (n % 16)]

/-- A character written by its code: two, four or eight hexadecimal digits, as few as do. -/
def byCode (c : Char) : List Char :=
  let n := c.toNat
  if n < 0x100 then '\\' :: 'x' :: hexDigits n 2
  else if n < 0x10000 then '\\' :: 'u' :: hexDigits n 4
  else '\\' :: 'U' :: hexDigits n 8

/-- A character as it stands between two `quote`s. -/
def escape (quote c : Char) : List Char :=
  if c = quote ∨ c = '\\' then ['\\', c]
  else if c = '\n' then ['\\', 'n']
  else if c = '\r' then ['\\', 'r']
  else if c = '\t' then ['\\', 't']
  else if isPrintable c then [c]
  else byCode c

theorem escape_of_printable {quote c : Char} (hq : c ≠ quote) (hb : c ≠ '\\')
    (hp : isPrintable c = true) : escape quote c = [c] := by
  have hn : c ≠ '\n' := by rintro rfl; revert hp; decide
  have hr : c ≠ '\r' := by rintro rfl; revert hp; decide
  have ht : c ≠ '\t' := by rintro rfl; revert hp; decide
  simp [escape, hq, hb, hn, hr, ht, hp]

/-- The quote that surrounds `s`. -/
def quoteFor (s : List Char) : Char :=
  if s.contains '\x27' && !s.contains '"' then '"' else '\x27'

/-- The text in quotes, with everything in it made visible. -/
def quoted (s : List Char) : List Char :=
  let quote := quoteFor s
  quote :: s.flatMap (escape quote) ++ [quote]

/-- A string in quotes, with everything in it made visible. -/
def quotedString (s : String) : String := String.ofList (quoted s.toList)

end ScopeLisp.Text
