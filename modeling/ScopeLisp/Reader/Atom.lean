import ScopeLisp.Reader.Choice
import ScopeLisp.Term.Basic

/-!
# Atoms

Each parser of an atom skips blanks first. Numbers, strings, literals and names are tried in this
order, so `-1` is a number and `-x` a name.

* `shortens_atom`: an atom uses up at least one character.
-/

namespace ScopeLisp.Reader

/-! ## Numbers -/

/-- What a decimal digit is worth. -/
def digitWorth (c : Char) : Nat := c.toNat - '0'.toNat

/-- The value of decimal digits read from the left. -/
def numeralValue (numeral : List Char) : Nat :=
  numeral.foldl (fun acc c => 10 * acc + digitWorth c) 0

/-- Takes a minus sign off the front, if there is one. -/
def splitSign : List Char → Bool × List Char
  | '-' :: rest => (true, rest)
  | source => (false, source)

/-- The integer with a sign and a magnitude. -/
def signed (negative : Bool) (magnitude : Nat) : Int :=
  if negative then -(magnitude : Int) else magnitude

/-- Reads a number. The width is looked up once the digits have been read. -/
def number (width : WidthSetting) : Parser Term := fun untrimmed =>
  let source := skipBlanks untrimmed
  let (negative, unsigned) := splitSign source
  match unsigned.takeWhile isDigit with
  | [] => failAt .notANumber source
  | numeral =>
    let rest := unsigned.dropWhile isDigit
    let value := signed negative (numeralValue numeral)
    match width with
    | .error error => .error (.setting error)
    | .ok width =>
      if width.holds value then .ok ⟨.number value, rest⟩
      else failFatally .numberOutOfRange rest

/-! ## Strings -/

/-- The character that an escape stands for. -/
def unescape? : Char → Option Char
  | 'n' => some '\n'
  | 't' => some '\t'
  | '\\' => some '\\'
  | '"' => some '"'
  | _ => none

/-- Reads the body of a string up to its closing quote. -/
def stringBody : Parser (List Char)
  | [] => failFatally .unterminatedString []
  | c :: rest =>
    if c = '"' then .ok ⟨[], rest⟩
    else if c = '\\' then
      match rest with
      | [] => failFatally (.invalidEscape none) ['\\']
      | escaped :: after =>
        match unescape? escaped with
        | none => failFatally (.invalidEscape (some escaped)) ('\\' :: escaped :: after)
        | some meant => (stringBody after).map (Parsed.map (meant :: ·))
    else (stringBody rest).map (Parsed.map (c :: ·))

/-- Reads a string. -/
def string : Parser Term := fun untrimmed =>
  match skipBlanks untrimmed with
  | '"' :: inside => (stringBody inside).map (Parsed.map fun body => .string (String.ofList body))
  | source => failAt .notAString source

/-! ## Literals -/

/-- The literals and the terms that they stand for. -/
def literals : List (List Char × Term) :=
  [(['#', 't'], .boolean true), (['#', 'f'], .boolean false), (['N', 'I', 'L'], .nil)]

/-- Whether an input goes on with a character of a name. -/
def continuesName : List Char → Bool
  | [] => false
  | c :: _ => isNameChar c

/-- Whether an input begins with `spelling` and does not go on with a character of a name. -/
def startsWithWord (spelling source : List Char) : Bool :=
  spelling.isPrefixOf source && !continuesName (source.drop spelling.length)

/-- Reads a literal. -/
def literal : Parser Term := fun untrimmed =>
  let source := skipBlanks untrimmed
  match literals.find? fun entry => startsWithWord entry.1 source with
  | some (spelling, term) => .ok ⟨term, source.drop spelling.length⟩
  | none => failAt .notALiteral source

/-! ## Names -/

/-- Whether an input begins with a digit. -/
def startsWithDigit : List Char → Bool
  | [] => false
  | c :: _ => isDigit c

/-- Reads a name. It must not begin like a negative number. -/
def identifier : Parser Term := fun untrimmed =>
  match skipBlanks untrimmed with
  | [] => failAt .invalidIdentifier []
  | c :: rest =>
    if !isNameStart c then failAt .invalidIdentifier (c :: rest)
    else if c == '-' && startsWithDigit rest then failAt .identifierLikeNumber (c :: rest)
    else
      .ok ⟨.identifier (String.ofList (c :: rest.takeWhile isNameChar)), rest.dropWhile isNameChar⟩

/-! ## Atoms -/

/-- Reads an atom. -/
def atom (width : WidthSetting) : Parser Term :=
  alternative [number width, string, literal, identifier]

/-! ## Progress -/

/-- Every success of the parser leaves less than it was given. -/
def Shortens {α : Type} (p : Parser α) : Prop :=
  ∀ source parsed, p source = .ok parsed → parsed.rest.length < source.length

theorem length_skipBlanks_le (source : List Char) :
    (skipBlanks source).length ≤ source.length :=
  (List.dropWhile_suffix isBlank).length_le

theorem length_splitSign_le (source : List Char) :
    (splitSign source).2.length ≤ source.length := by
  unfold splitSign
  split <;> simp

theorem shortens_number (width : WidthSetting) : Shortens (number width) := by
  intro source parsed h
  simp only [number] at h
  split at h
  · cases h
  · rename_i numeral hne
    split at h
    · cases h
    · split at h
      · cases h
        have h1 := length_skipBlanks_le source
        have h2 := length_splitSign_le (skipBlanks source)
        have h3 := congrArg List.length
          (List.takeWhile_append_dropWhile (p := isDigit) (l := (splitSign (skipBlanks source)).2))
        have h4 : 0 < ((splitSign (skipBlanks source)).2.takeWhile isDigit).length :=
          List.length_pos_iff.mpr hne
        simp only [List.length_append] at h3
        dsimp only
        omega
      · cases h

theorem shortens_stringBody : Shortens stringBody := by
  intro source
  fun_induction stringBody source with
  | case1 => intro parsed h; cases h
  | case2 => intro parsed h; cases h; simp
  | case3 => intro parsed h; cases h
  | case4 => intro parsed h; cases h
  | case5 _ _ _ _ _ ih =>
    intro parsed h
    obtain ⟨body, hb, rfl⟩ := exists_of_map_ok h
    have := ih body hb
    simp only [Parsed.map, List.length_cons]
    omega
  | case6 _ _ _ _ ih =>
    intro parsed h
    obtain ⟨body, hb, rfl⟩ := exists_of_map_ok h
    have := ih body hb
    simp only [Parsed.map, List.length_cons]
    omega

theorem shortens_string : Shortens string := by
  intro source parsed h
  simp only [string] at h
  split at h
  · rename_i inside hs
    have h1 := length_skipBlanks_le source
    rw [hs, List.length_cons] at h1
    obtain ⟨body, hb, rfl⟩ := exists_of_map_ok h
    have := shortens_stringBody _ _ hb
    simp only [Parsed.map]
    omega
  · cases h

theorem shortens_literal : Shortens literal := by
  intro source parsed h
  simp only [literal] at h
  split at h
  · rename_i spelling term hf
    have h1 := length_skipBlanks_le source
    have hw := List.find?_some hf
    simp only [startsWithWord, Bool.and_eq_true, List.isPrefixOf_iff_prefix] at hw
    have h2 := hw.1.length_le
    have h3 : 0 < spelling.length := by
      have hm := List.mem_of_find?_eq_some hf
      simp only [literals, List.mem_cons, List.not_mem_nil, or_false, Prod.mk.injEq] at hm
      rcases hm with ⟨rfl, -⟩ | ⟨rfl, -⟩ | ⟨rfl, -⟩ <;> decide
    cases h
    simp only [List.length_drop]
    omega
  · cases h

theorem shortens_identifier : Shortens identifier := by
  intro source parsed h
  simp only [identifier] at h
  split at h
  · cases h
  · rename_i c rest hs
    have h1 := length_skipBlanks_le source
    rw [hs, List.length_cons] at h1
    split at h
    · cases h
    · split at h
      · cases h
      · cases h
        have h2 := (List.dropWhile_suffix (l := rest) isNameChar).length_le
        dsimp only
        omega

theorem shortens_alternative {α : Type} {parsers : List (Parser α)}
    (h : ∀ p ∈ parsers, Shortens p) : Shortens (alternative parsers) := by
  intro source parsed hs
  obtain ⟨p, hp, hps⟩ := exists_of_alternative_ok hs
  exact h p hp source parsed hps

theorem shortens_atom (width : WidthSetting) : Shortens (atom width) := by
  refine shortens_alternative fun p hp => ?_
  simp only [List.mem_cons, List.not_mem_nil, or_false] at hp
  rcases hp with rfl | rfl | rfl | rfl
  · exact shortens_number width
  · exact shortens_string
  · exact shortens_literal
  · exact shortens_identifier

end ScopeLisp.Reader
