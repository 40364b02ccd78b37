import ScopeLisp.Binary64.Printer
import ScopeLisp.Text.Quoted

/-!
# Foreign values

The embedding program may hand over values that are not terms: an absent value, a bare number, a
bare piece of text. All that is known of such a value is how it is written, plainly and for
debugging, and that is all that error messages need. So a bare integer that is too long to be
written is not among these values.
-/

namespace ScopeLisp

/-- A value from outside the language, known only by its two written forms. -/
structure Foreign where
  /-- The form used in error messages. -/
  debug : String
  /-- The plain form. -/
  text : String
deriving DecidableEq

namespace Foreign

/-! ## Written forms -/

/-- A value known by one form only. -/
def ofForm (form : String) : Foreign := ⟨form, form⟩

/-- No value at all. -/
def absent : Foreign := ofForm "None"

/-- A bare truth value. -/
def ofBool (b : Bool) : Foreign := ofForm (if b then "True" else "False")

/-- A bare integer, if it can be written. -/
def ofInt? (n : Int) : Option Foreign := (Text.decimal? n).map ofForm

/-- A bare text: quoted for debugging, plain otherwise. -/
def ofString (s : String) : Foreign := ⟨Text.quotedString s, s⟩

/-- A bare sequence of values. -/
def ofList (values : List Foreign) : Foreign :=
  ofForm ("[" ++ String.intercalate ", " (values.map debug) ++ "]")

/-- A bare table of values under textual keys. -/
def ofTable (entries : List (String × Foreign)) : Foreign :=
  ofForm ("\x7b" ++ String.intercalate ", "
    (entries.map fun entry => Text.quotedString entry.1 ++ ": " ++ entry.2.debug) ++ "\x7d")

/-- A bare number that is no integer. -/
def ofBinary64 (x : Binary64) : Foreign := ofForm (String.ofList x.chars)

/-! ## Kinds -/

/-- The kinds of foreign values that have no place in the order of numbers. -/
inductive Kind where
  | absent
  | string
  | list
  | table
deriving DecidableEq

/-- The name of a kind in error messages. -/
def Kind.label : Kind → String
  | .absent => "NoneType"
  | .string => "str"
  | .list => "list"
  | .table => "dict"

end Foreign

end ScopeLisp
