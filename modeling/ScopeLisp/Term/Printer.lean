import ScopeLisp.Error
import ScopeLisp.Term.Basic
import ScopeLisp.Text.Join

/-!
# Written forms of terms

A term has a one-line form for the reader of a result (`render`), a plain form (`text`) and a form
for debugging (`debug`). None of them exists for a term that holds a number with too many digits to
be written, and `render` refuses terms that hold foreign values, too. The error is the first one
from the left.
-/

namespace ScopeLisp

/-! ## String literals -/

/-- A character as it stands in a string literal. -/
def quoteChar (c : Char) : List Char :=
  if c = '\\' then ['\\', '\\']
  else if c = '"' then ['\\', '"']
  else if c = '\n' then ['\\', 'n']
  else if c = '\t' then ['\\', 't']
  else [c]

/-- The string literal that the reader reads back as `s`. -/
def quoteChars (s : List Char) : List Char :=
  '"' :: s.flatMap quoteChar ++ ['"']

/-- The string literal of a string. -/
def quoteString (s : String) : String := String.ofList (quoteChars s.toList)

namespace Term

/-- The numeral of a number that is not too long. -/
def numeral (n : Int) : Except Misuse (List Char) :=
  match Text.intDigits? n with
  | some digits => .ok digits
  | none => .error .overlong

/-! ## Plain form -/

mutual

/-- The plain form of a term, as characters. -/
def textChars : Term → Except Misuse (List Char)
  | .nil => .ok ['N', 'I', 'L']
  | .boolean b => .ok ['#', if b then 't' else 'f']
  | .number n => numeral n
  | .string s => .ok (quoteChars s.toList)
  | .identifier name => .ok name.toList
  | .list terms => do
    let pieces ← textCharsAll terms
    return '[' :: Text.spaced pieces ++ [']']
  | .foreign value => .ok value.text.toList

/-- The plain forms of several terms. -/
def textCharsAll : List Term → Except Misuse (List (List Char))
  | [] => .ok []
  | t :: ts => do
    let piece ← textChars t
    let pieces ← textCharsAll ts
    return piece :: pieces

end

/-- The plain form of a term. -/
def text (t : Term) : Except Misuse String := t.textChars.map String.ofList

/-! ## Rendering -/

mutual

/-- The one-line form of a term, as characters. -/
def renderChars : Term → Except Misuse (List Char)
  | .nil => .ok ['N', 'I', 'L']
  | .boolean true => .ok ['#', 't']
  | .boolean false => .ok ['#', 'f']
  | .number n => numeral n
  | .string s => .ok (quoteChars s.toList)
  | .identifier name => .ok name.toList
  | .list terms => do
    let pieces ← renderCharsAll terms
    return '[' :: Text.spaced pieces ++ [']']
  | .foreign value => .error (.notATerm value)

/-- The one-line forms of several terms, or the first error among them. -/
def renderCharsAll : List Term → Except Misuse (List (List Char))
  | [] => .ok []
  | t :: ts => do
    let piece ← renderChars t
    let pieces ← renderCharsAll ts
    return piece :: pieces

end

/-- The one-line form of a term. -/
def render (t : Term) : Except Misuse String := t.renderChars.map String.ofList

/-! ## Debugging form -/

mutual

/-- The form of a term for debugging: its kind and its value. -/
def debug : Term → Except Misuse String
  | .nil => .ok "Nil"
  | .boolean b => .ok ("Boolean(value=" ++ (if b then "True" else "False") ++ ")")
  | .number n => do
    let digits ← numeral n
    return "Number(value=" ++ String.ofList digits ++ ")"
  | .string s => .ok ("String(value=" ++ Text.quotedString s ++ ")")
  | .identifier name => .ok ("Identifier(" ++ Text.quotedString name ++ ")")
  | .list terms => do
    let forms ← debugAll terms
    return "TermList([" ++ String.intercalate ", " forms ++ "])"
  | .foreign value => .ok value.debug

/-- The debugging forms of several terms. -/
def debugAll : List Term → Except Misuse (List String)
  | [] => .ok []
  | t :: ts => do
    let form ← debug t
    let forms ← debugAll ts
    return form :: forms

end

end Term

end ScopeLisp
