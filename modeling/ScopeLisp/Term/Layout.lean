import ScopeLisp.Context

/-!
# Coloured and wrapped terms

For reading on a terminal, the parts of a term are coloured by their kind, and a list that does
not fit into a line is broken: its elements then stand on lines of their own, indented by two
spaces for each level. What fits is decided by the uncoloured form. Names of functions have a colour
of their own, as long as there is a context to look them up in; a view of a frame that is gone is
no such context.

* `layoutChars_nil`: an empty list is written without colour and never broken.
-/

namespace ScopeLisp

/-- How long a line may be. -/
inductive LineLimit where
  /-- Lines of at most this length fit. -/
  | atMost (length : Int)
  /-- Every line fits. -/
  | unlimited
  /-- No line fits. -/
  | nothing
  /-- A foreign value that no length can be held against. -/
  | foreign (kind : Foreign.Kind)
deriving DecidableEq

namespace LineLimit

/-- The limit that a number is: a line fits when its length is at most that number. -/
def ofBinary64 (x : Binary64) : LineLimit :=
  match x.floor? with
  | some length => .atMost length
  | none => if x = .infinite false then .unlimited else .nothing

/-- Whether a line of some length fits. -/
def fits : LineLimit → (length : Int) → Except Misuse Bool
  | .atMost limit, length => .ok (length ≤ limit)
  | .unlimited, _ => .ok true
  | .nothing, _ => .ok false
  | .foreign kind, _ => .error (.incomparableLimit kind)

end LineLimit

/-- How terms are laid out. -/
structure LayoutOptions where
  /-- Whether kinds are told apart by colours. -/
  color : Bool := true
  /-- A list is broken when its one-line form and its indentation exceed this. -/
  maxLineLength : LineLimit := .atMost 80

namespace Term

/-! ## Colours -/

/-- The code that selects a colour. -/
def colorCode (color : Nat) : List Char :=
  '\x1b' :: '[' :: Text.natDigits color ++ ['m']

/-- Text between the code of a colour and the code that ends it. -/
def inColor (color : Nat) (s : List Char) : List Char :=
  colorCode color ++ s ++ colorCode 0

/-- Where the names in a term are looked up, if anywhere: a context and the arena of its frame. -/
abbrev Scope := Option (Context × Arena)

/-- Whether a name is that of a function. Without a context none is. -/
def isFunctionIn (scope : Scope) (name : String) : Except Misuse Bool :=
  match scope with
  | none => .ok false
  | some (context, arena) => (context.findFunction arena name).map Option.isSome

/-- The colour of a term by its kind. Lists have none; names of functions differ from other
names. -/
def color? (scope : Scope) : Term → Except Misuse (Option Nat)
  | .identifier name => do return some (if ← isFunctionIn scope name then 95 else 94)
  | .number _ => .ok (some 92)
  | .string _ => .ok (some 93)
  | .nil | .boolean _ => .ok (some 90)
  | .list _ | .foreign _ => .ok none

/-- Text in a colour, or as it is. -/
def painted : (color : Option Nat) → List Char → List Char
  | some color, s => inColor color s
  | none, s => s

/-- The one-line form of a term in the colour of its kind. The elements of a list are not
coloured one by one. -/
def colorizeChars (scope : Scope) (options : LayoutOptions) (t : Term) :
    Except Misuse (List Char) := do
  let s ← t.renderChars
  if options.color then return painted (← t.color? scope) s else return s

/-- The coloured one-line form of a term, as a string. -/
def colorize (scope : Scope) (options : LayoutOptions) (t : Term) : Except Misuse String :=
  (t.colorizeChars scope options).map String.ofList

/-! ## Lines -/

/-- The end of a line and the indentation of the next one. -/
def lineBreak (indent : Int) : List Char :=
  '\n' :: List.replicate (2 * (indent + 1)).toNat ' '

mutual

/-- A term laid out at a level of indentation. -/
def layoutChars (scope : Scope) (options : LayoutOptions) (indent : Int) :
    Term → Except Misuse (List Char)
  | .list terms =>
    match terms with
    | [] => .ok ['[', ']']
    | _ :: _ => do
      let parts ← layoutCharsAll scope options (indent + 1) terms
      let flat ← (Term.list terms).renderChars
      if ← options.maxLineLength.fits (flat.length + indent * 2) then
        return '[' :: Text.spaced parts ++ [']']
      else
        return '[' :: Text.joined (lineBreak indent) parts ++ [']']
  | t => t.colorizeChars scope options

/-- Several terms laid out at a level of indentation. -/
def layoutCharsAll (scope : Scope) (options : LayoutOptions) (indent : Int) :
    List Term → Except Misuse (List (List Char))
  | [] => .ok []
  | t :: ts => do
    let part ← layoutChars scope options indent t
    let parts ← layoutCharsAll scope options indent ts
    return part :: parts

end

@[simp] theorem layoutChars_nil (scope : Scope) (options : LayoutOptions) (indent : Int) :
    layoutChars scope options indent (.list []) = .ok ['[', ']'] := by
  simp [layoutChars]

/-- A term laid out for a terminal. -/
def layout (scope : Scope) (options : LayoutOptions) (indent : Int) (t : Term) :
    Except Misuse String :=
  (t.layoutChars scope options indent).map String.ofList

end Term

end ScopeLisp
