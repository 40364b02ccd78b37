import Mathlib.Data.List.Forall2
import ScopeLisp.Proofs.Rendering.Unambiguous
import ScopeLisp.Term.Layout

/-!
# Wrapping and colouring add nothing else

A term that is laid out for a terminal differs from its one-line form by line breaks with
indentation and by colour codes. Both can be erased again: a line break together with the spaces
after it becomes the one space that it stands for (`Text.unwrap`), and colour codes are deleted
(`Text.withoutColors`). The two are of one kind: they go through a text from the left, and what
they make of a piece does not depend on what follows it (`Erases`), with one exception, as a line
break takes the spaces of whatever follows it too. Nothing that is laid out begins with a space.

A list that fits into its line is not wrapped at any depth: an element is at least the two
brackets shorter than the list, and these pay for the two columns by which it is indented.

* `layoutChars_eq`: laying out a term without foreign values, as a total function (`arranged`), if
  no number in it is too long and names can be looked up.
* `layoutChars_of_isStale`: the layout with a context whose frame is gone.
* `arranged_of_allows`: what fits stays in one line.
* `Erasure.arranged`: an erasure takes one arrangement to another if it does so on atoms and gaps.
* `layout_adds_breaks_and_colors`: what is in one line, what wrapping adds and what colours add.
-/

namespace ScopeLisp

/-! ## Erasing line breaks and colour codes -/

namespace Text

/-- The text with every line break, and all spaces right after it, replaced by one space. -/
def unwrapChars : List Char → List Char
  | [] => []
  | c :: rest =>
    if c = '\n' then ' ' :: unwrapChars (rest.dropWhile (· == ' ')) else c :: unwrapChars rest
termination_by s => s.length
decreasing_by
  · exact Nat.lt_succ_of_le (List.dropWhile_suffix _).length_le
  · exact Nat.lt_succ_self _

/-- The text with every line break, and all spaces right after it, replaced by one space. -/
def unwrap (s : String) : String := String.ofList (unwrapChars s.toList)

/-- Whether a character may stand between the bracket and the letter of a colour code. -/
def isCodeChar (c : Char) : Bool := Reader.isDigit c || c == ';'

/-- What follows the colour code at the beginning of a text, if there is one. -/
def afterColorCode? : List Char → Option (List Char)
  | '\x1b' :: '[' :: rest =>
    match rest.dropWhile isCodeChar with
    | 'm' :: after => some after
    | _ => none
  | _ => none

theorem length_afterColorCode?_lt {s after : List Char} (h : afterColorCode? s = some after) :
    after.length < s.length := by
  unfold afterColorCode? at h
  split at h
  · rename_i rest
    split at h
    · rename_i hrest
      cases h
      have hle := (List.dropWhile_suffix (l := rest) isCodeChar).length_le
      rw [hrest] at hle
      simp only [List.length_cons] at hle ⊢
      omega
    · cases h
  · cases h

/-- The text without colour codes. -/
def withoutColorChars : List Char → List Char
  | [] => []
  | c :: rest =>
    match _ : afterColorCode? (c :: rest) with
    | some after => withoutColorChars after
    | none => c :: withoutColorChars rest
termination_by s => s.length
decreasing_by
  · exact length_afterColorCode?_lt ‹_›
  · exact Nat.lt_succ_self _

/-- The text without colour codes. -/
def withoutColors (s : String) : String := String.ofList (withoutColorChars s.toList)

/-! ### Pieces of text -/

theorem unwrapChars_append {s : List Char} (h : '\n' ∉ s) (rest : List Char) :
    unwrapChars (s ++ rest) = s ++ unwrapChars rest := by
  induction s with
  | nil => rfl
  | cons c s ih =>
    rw [List.mem_cons, not_or] at h
    obtain ⟨hc, hs⟩ := h
    rw [List.cons_append, unwrapChars, if_neg (Ne.symm hc), ih hs, List.cons_append]

/-- A line break takes its indentation with it, but nothing of a text that does not begin with a
space. -/
theorem unwrapChars_lineBreak (indent : Int) {next : List Char} (h : next.head? ≠ some ' ') :
    unwrapChars (Term.lineBreak indent ++ next) = ' ' :: unwrapChars next := by
  have hdrop : ∀ n, (List.replicate n ' ' ++ next).dropWhile (· == ' ') = next := by
    intro n
    induction n with
    | zero =>
      cases next with
      | nil => rfl
      | cons c next =>
        have hc : ¬ (c == ' ') = true := fun heq => h (congrArg some (beq_iff_eq.mp heq))
        exact List.dropWhile_cons_of_neg hc
    | succ n ih => rwa [List.replicate_succ, List.cons_append, List.dropWhile_cons_of_pos rfl]
  rw [Term.lineBreak, List.cons_append, unwrapChars, if_pos rfl, hdrop]

theorem afterColorCode?_of_ne {c : Char} (h : c ≠ '\x1b') (rest : List Char) :
    afterColorCode? (c :: rest) = none := by
  unfold afterColorCode?
  split
  · rename_i heq
    exact absurd (List.cons.inj heq).1 h
  · rfl

theorem withoutColorChars_append {s : List Char} (h : '\x1b' ∉ s) (rest : List Char) :
    withoutColorChars (s ++ rest) = s ++ withoutColorChars rest := by
  induction s with
  | nil => rfl
  | cons c s ih =>
    rw [List.mem_cons, not_or] at h
    obtain ⟨hc, hs⟩ := h
    have hnone := afterColorCode?_of_ne (Ne.symm hc) (s ++ rest)
    rw [List.cons_append, withoutColorChars]
    split
    · rename_i hsome
      rw [hnone] at hsome
      cases hsome
    · rw [ih hs, List.cons_append]

theorem withoutColorChars_colorCode (color : Nat) (rest : List Char) :
    withoutColorChars (Term.colorCode color ++ rest) = withoutColorChars rest := by
  have hcode : ∀ c ∈ natDigits color, isCodeChar c = true := by
    intro c hc
    rw [isCodeChar, (Grammar.numeral_natDigits color).isDigit c hc, Bool.true_or]
  have hdrop : (natDigits color ++ 'm' :: rest).dropWhile isCodeChar = 'm' :: rest := by
    rw [List.dropWhile_append_of_pos hcode]
    exact List.dropWhile_cons_of_neg (by decide)
  have hafter : afterColorCode? (Term.colorCode color ++ rest) = some rest := by
    simp only [Term.colorCode, List.cons_append, List.append_assoc, List.nil_append,
      afterColorCode?, hdrop]
  rw [Term.colorCode, List.cons_append, List.cons_append] at hafter ⊢
  rw [withoutColorChars]
  split
  · rename_i hsome
    rw [hafter] at hsome
    cases hsome
    rfl
  · rename_i hnone
    rw [hafter] at hnone
    cases hnone

theorem withoutColorChars_inColor (color : Nat) {s : List Char} (h : '\x1b' ∉ s)
    (rest : List Char) :
    withoutColorChars (Term.inColor color s ++ rest) = s ++ withoutColorChars rest := by
  rw [Term.inColor, List.append_assoc, List.append_assoc, withoutColorChars_colorCode,
    withoutColorChars_append h, withoutColorChars_colorCode]

/-! ### Erasures -/

/-- The erasure makes `kept` of the piece of text `s`, whatever follows it, and the piece is one
that may follow a gap. -/
structure Erases (erase : List Char → List Char) (front : List Char → Prop)
    (s kept : List Char) : Prop where
  front : ∀ rest, front (s ++ rest)
  erase : ∀ rest, erase (s ++ rest) = kept ++ erase rest

variable {erase : List Char → List Char} {front : List Char → Prop}

/-- An erasure goes through pieces with gaps between them piece by piece and gap by gap. -/
theorem erase_joined {gap gap' : List Char}
    (hgap : ∀ next, front next → erase (gap ++ next) = gap' ++ erase next)
    {parts kept : List (List Char)} (h : List.Forall₂ (Erases erase front) parts kept)
    (rest : List Char) :
    erase (joined gap parts ++ rest) = joined gap' kept ++ erase rest := by
  induction h with
  | nil => rfl
  | cons hpart hparts ih =>
    cases hparts with
    | nil => exact hpart.erase rest
    | @cons second second' more more' hsecond hmore =>
      -- the next piece stands right after the gap
      have hnext : front (joined gap (second :: more) ++ rest) := by
        cases more with
        | nil => exact hsecond.front rest
        | cons third more =>
          rw [joined_cons_cons, List.append_assoc, List.append_assoc]
          exact hsecond.front _
      rw [joined_cons_cons, joined_cons_cons, List.append_assoc, List.append_assoc,
        hpart.erase, hgap _ hnext, ih, List.append_assoc, List.append_assoc]

theorem length_le_spaced {piece : List Char} {pieces : List (List Char)} (h : piece ∈ pieces) :
    piece.length ≤ (spaced pieces).length := by
  induction pieces with
  | nil => cases h
  | cons first pieces ih =>
    cases pieces with
    | nil =>
      rw [List.mem_singleton.mp h]
      exact Nat.le_refl _
    | cons second more =>
      rw [spaced, joined_cons_cons, List.length_append, List.length_append]
      rcases List.mem_cons.mp h with rfl | hmem
      · omega
      · have hle := ih hmem
        rw [spaced] at hle
        omega

end Text

/-! ## Laying out, as a total function -/

namespace Context

/-- The frame of a context is there, or it is gone. -/
theorem frame_cases (context : Context) (arena : Arena) :
    (∃ frame, context.frame arena = .ok frame) ∨
      context.frame arena = .error (.staleFrame context.handle) := by
  unfold frame Arena.get
  split
  · split
    · split
      · exact .inl ⟨_, rfl⟩
      · exact .inr rfl
    · exact .inr rfl
  · exact .inr rfl

end Context

namespace LineLimit

/-- Whether a line of some length fits, for a limit that is a number. -/
def allows : LineLimit → (length : Int) → Bool
  | .atMost limit, length => length ≤ limit
  | .unlimited, _ => true
  | .nothing, _ | .foreign _, _ => false

theorem fits_eq {limit : LineLimit} (h : ∀ kind, limit ≠ .foreign kind) (length : Int) :
    limit.fits length = .ok (limit.allows length) := by
  cases limit with
  | foreign kind => exact absurd rfl (h kind)
  | _ => rfl

theorem allows_of_le {limit : LineLimit} {length shorter : Int} (h : limit.allows length = true)
    (hle : shorter ≤ length) : limit.allows shorter = true := by
  cases limit with
  | atMost bound =>
    have hbound : length ≤ bound := of_decide_eq_true h
    exact decide_eq_true (by omega)
  | unlimited => rfl
  | nothing | foreign _ => cases h

end LineLimit

namespace Term

open Text

/-- The gap between the elements of a list whose one-line form has `flat` characters. -/
def elementGap (allows : Int → Bool) (indent : Int) (flat : Nat) : List Char :=
  if allows (flat + indent * 2) then [' '] else lineBreak indent

mutual

/-- A term with its atoms in colours, wrapped where a line is not allowed. -/
def arranged (color? : Term → Option Nat) (allows : Int → Bool) (indent : Int) :
    Term → List Char
  | .list terms =>
    '[' :: joined (elementGap allows indent (Term.list terms).spelledChars.length)
      (arrangedAll color? allows (indent + 1) terms) ++ [']']
  | t => painted (color? t) t.spelledChars

/-- Several terms, each arranged at a level of indentation. -/
def arrangedAll (color? : Term → Option Nat) (allows : Int → Bool) (indent : Int) :
    List Term → List (List Char)
  | [] => []
  | t :: ts => arranged color? allows indent t :: arrangedAll color? allows indent ts

end

theorem arrangedAll_eq_map (color? : Term → Option Nat) (allows : Int → Bool) (indent : Int)
    (terms : List Term) :
    arrangedAll color? allows indent terms = terms.map (arranged color? allows indent) := by
  induction terms with
  | nil => rfl
  | cons t terms ih => rw [arrangedAll, ih, List.map_cons]

theorem arranged_of_atom {color? : Term → Option Nat} {allows : Int → Bool} {indent : Int}
    {t : Term} (h : ∀ terms, t ≠ .list terms) :
    arranged color? allows indent t = painted (color? t) t.spelledChars := by
  cases t with
  | list terms => exact absurd rfl (h terms)
  | _ => rfl

/-! ## Looking names up -/

/-- Names can be looked up in the scope, and the given ones are those of functions. -/
def Resolves (scope : Scope) (isFunction : String → Bool) : Prop :=
  ∀ name, isFunctionIn scope name = .ok (isFunction name)

/-- The frame of the context is gone, and so no name can be looked up. -/
structure IsStale (scope : Scope) (context : Context) (arena : Arena) : Prop where
  scope_eq : scope = some (context, arena)
  frame_eq : context.frame arena = .error (.staleFrame context.handle)
  lookup_eq : ∀ name, isFunctionIn scope name = .error (.staleFrame context.handle)

/-- A scope without a context, or with a context whose frame is there, is one in which all names can
be looked up; in every other scope none can be. -/
theorem scope_cases (scope : Scope) :
    (∃ isFunction, Resolves scope isFunction) ∨ ∃ context arena, IsStale scope context arena := by
  cases scope with
  | none => exact .inl ⟨fun _ => false, fun _ => rfl⟩
  | some view =>
    obtain ⟨context, arena⟩ := view
    rcases context.frame_cases arena with ⟨frame, hframe⟩ | hframe
    · refine .inl ⟨fun name => ((chainAt arena.frames context.handle).findSome? fun shown =>
        shown.functions.lookup name).isSome, fun name => ?_⟩
      rw [isFunctionIn, Context.findFunction, Context.chain, hframe]
      rfl
    · refine .inr ⟨context, arena, rfl, hframe, fun name => ?_⟩
      rw [isFunctionIn, Context.findFunction, Context.chain, hframe]
      rfl

/-! ## Arranging -/

/-- The colour of a term under the options, for the given names of functions. -/
def colorUnder? (isFunction : String → Bool) (options : LayoutOptions) : Term → Option Nat
  | .identifier name =>
    if options.color then some (if isFunction name then 95 else 94) else none
  | .number _ => if options.color then some 92 else none
  | .string _ => if options.color then some 93 else none
  | .nil | .boolean _ => if options.color then some 90 else none
  | .list _ | .foreign _ => none

section Layout

variable {scope : Scope} {isFunction : String → Bool} {options : LayoutOptions}

/-- Without colours no name is looked up. -/
theorem colorizeChars_eq (hscope : options.color = true → Resolves scope isFunction) {t : Term}
    (h : t.isProper = true) :
    t.colorizeChars scope options
      = unlessOverlong t.isWritable
          (painted (t.colorUnder? isFunction options) t.spelledChars) := by
  rw [colorizeChars, renderChars_eq t h]
  cases t.isWritable with
  | false => rfl
  | true =>
    simp only [unlessOverlong, if_true, bind, Except.bind]
    cases hcolor : options.color with
    | false => cases t <;> simp only [colorUnder?, hcolor] <;> rfl
    | true =>
      cases t with
      | identifier name =>
        simp only [color?, hscope hcolor name, colorUnder?, hcolor]
        rfl
      | _ =>
        simp only [color?, colorUnder?, hcolor]
        rfl

mutual

/-- A term without foreign values is laid out by arranging it, unless a number in it is too long. -/
theorem layoutChars_eq (hscope : options.color = true → Resolves scope isFunction)
    (hlimit : ∀ kind, options.maxLineLength ≠ .foreign kind) (indent : Int) :
    ∀ t : Term, t.isProper = true → t.layoutChars scope options indent
      = unlessOverlong t.isWritable
          (arranged (colorUnder? isFunction options) options.maxLineLength.allows indent t)
  | .list [], _ => layoutChars_nil ..
  | .list (t :: ts), h => by
    have hparts := layoutCharsAll_eq hscope hlimit (indent + 1) (t :: ts) h
    have hflat := renderChars_eq (.list (t :: ts)) h
    rw [layoutChars, hparts, hflat, isWritable]
    cases isWritableAll (t :: ts) with
    | false => rfl
    | true =>
      simp only [unlessOverlong, if_true, bind, Except.bind]
      rw [LineLimit.fits_eq hlimit, arranged, elementGap]
      dsimp only
      split <;> rfl
  | .nil, h | .boolean _, h | .number _, h | .string _, h | .identifier _, h => by
    rw [layoutChars, colorizeChars_eq hscope h]
    · rw [arranged_of_atom fun _ heq => by cases heq]
    · intro _ heq
      cases heq
  | .foreign _, h => by cases h

theorem layoutCharsAll_eq (hscope : options.color = true → Resolves scope isFunction)
    (hlimit : ∀ kind, options.maxLineLength ≠ .foreign kind)
    (indent : Int) : ∀ ts : List Term, isProperAll ts = true →
    layoutCharsAll scope options indent ts
      = unlessOverlong (isWritableAll ts)
          (arrangedAll (colorUnder? isFunction options) options.maxLineLength.allows indent ts)
  | [], _ => rfl
  | t :: ts, h => by
    rw [isProperAll, Bool.and_eq_true] at h
    rw [layoutCharsAll, layoutChars_eq hscope hlimit indent t h.1,
      layoutCharsAll_eq hscope hlimit indent ts h.2, isWritableAll]
    exact unlessOverlong_bind _ _ _ (unlessOverlong_map ..)

end

section Stale

variable {context : Context} {arena : Arena}

theorem colorizeChars_of_isStale (h : IsStale scope context arena) (t : Term) :
    t.colorizeChars scope options = .error (.staleFrame context.handle) ∨
    t.colorizeChars scope options = t.colorizeChars none options := by
  cases t with
  | identifier name =>
    cases hcolor : options.color with
    | false => exact .inr (by simp only [colorizeChars, hcolor]; rfl)
    | true =>
      refine .inl ?_
      simp only [colorizeChars, renderChars, hcolor, color?, h.lookup_eq name]
      rfl
  | _ => exact .inr rfl

mutual

/-- In a scope whose frame is gone, the layout of a term fails for that, or no name was looked up
and it is the same as without a scope. -/
theorem layoutChars_of_isStale (h : IsStale scope context arena) (indent : Int) : ∀ t : Term,
    t.layoutChars scope options indent = .error (.staleFrame context.handle) ∨
    t.layoutChars scope options indent = t.layoutChars none options indent
  | .list [] => .inr (by rw [layoutChars_nil, layoutChars_nil])
  | .list (t :: ts) => by
    rw [layoutChars, layoutChars]
    rcases layoutCharsAll_of_isStale h (indent + 1) (t :: ts) with hparts | hparts
    · rw [hparts]
      exact .inl rfl
    · rw [hparts]
      exact .inr rfl
  | .nil | .boolean _ | .number _ | .string _ | .identifier _ | .foreign _ =>
    colorizeChars_of_isStale h _

theorem layoutCharsAll_of_isStale (h : IsStale scope context arena) (indent : Int) :
    ∀ ts : List Term,
    layoutCharsAll scope options indent ts = .error (.staleFrame context.handle) ∨
    layoutCharsAll scope options indent ts = layoutCharsAll none options indent ts
  | [] => .inr rfl
  | t :: ts => by
    rw [layoutCharsAll, layoutCharsAll]
    rcases layoutChars_of_isStale h indent t with hpart | hpart
    · rw [hpart]
      exact .inl rfl
    · rw [hpart]
      cases layoutChars none options indent t with
      | error e => exact .inr rfl
      | ok part =>
        rcases layoutCharsAll_of_isStale h indent ts with hparts | hparts
        · rw [hparts]
          exact .inl rfl
        · rw [hparts]
          exact .inr rfl

end

end Stale

end Layout

/-! ## What fits -/

/-- A list that fits is in one line, and so are its elements at every depth. -/
theorem arranged_of_allows {limit : LineLimit} {indent : Int} {t : Term}
    (h : limit.allows (t.spelledChars.length + indent * 2) = true) :
    arranged (fun _ => none) limit.allows indent t = t.spelledChars := by
  induction t using Term.induct generalizing indent with
  | nil | boolean | number | string | identifier | foreign => rfl
  | list terms ih =>
    have helements : terms.map (arranged (fun _ => none) limit.allows (indent + 1))
        = terms.map spelledChars := by
      refine List.map_congr_left fun t ht => ih t ht (LineLimit.allows_of_le h ?_)
      have hshort : t.spelledChars.length ≤ (spaced (terms.map spelledChars)).length :=
        length_le_spaced (List.mem_map_of_mem ht)
      have hbrackets : (Term.list terms).spelledChars.length
          = (spaced (terms.map spelledChars)).length + 2 := by
        rw [spelledChars_list, List.length_append, List.length_cons, List.length_singleton]
      omega
    rw [arranged, arrangedAll_eq_map, helements, elementGap, if_pos h, spelledChars_list]
    rfl

/-- The one-line form of a term is its arrangement if every line is allowed. -/
theorem arranged_unlimited (indent : Int) (t : Term) :
    arranged (fun _ => none) (fun _ => true) indent t = t.spelledChars :=
  @arranged_of_allows .unlimited indent t rfl

/-! ## Erasing from an arrangement -/

/-- What it takes for an erasure to turn the arrangements of the terms of a kind into others: it
leaves brackets alone, and it turns gaps into gaps and atoms into atoms. -/
structure Erasure (erase : List Char → List Char) (front : List Char → Prop)
    (kind : Term → Prop) (color? color?' : Term → Option Nat) (allows allows' : Int → Bool) :
    Prop where
  bracket_front : ∀ rest, front ('[' :: rest)
  bracket : ∀ c ∈ ['[', ']'], ∀ rest, erase (c :: rest) = c :: erase rest
  gap : ∀ indent flat next, front next →
    erase (elementGap allows indent flat ++ next) = elementGap allows' indent flat ++ erase next
  atom : ∀ t, kind t → (∀ terms, t ≠ .list terms) →
    Erases erase front (painted (color? t) t.spelledChars) (painted (color?' t) t.spelledChars)
  element : ∀ terms, kind (.list terms) → ∀ t ∈ terms, kind t

theorem Erasure.arranged {erase : List Char → List Char} {front : List Char → Prop}
    {kind : Term → Prop} {color? color?' : Term → Option Nat} {allows allows' : Int → Bool}
    (he : Erasure erase front kind color? color?' allows allows') (indent : Int) {t : Term}
    (h : kind t) :
    Erases erase front (t.arranged color? allows indent) (t.arranged color?' allows' indent) := by
  induction t using Term.induct generalizing indent with
  | nil | boolean | number | string | identifier | foreign =>
    exact he.atom _ h fun _ heq => by cases heq
  | list terms ih =>
    rw [Term.arranged, Term.arranged, arrangedAll_eq_map, arrangedAll_eq_map]
    have hparts : List.Forall₂ (Erases erase front)
        (terms.map (Term.arranged color? allows (indent + 1)))
        (terms.map (Term.arranged color?' allows' (indent + 1))) := by
      rw [List.forall₂_map_left_iff, List.forall₂_map_right_iff, List.forall₂_same]
      exact fun t ht => ih t ht (indent + 1) (he.element terms h t ht)
    refine ⟨fun rest => he.bracket_front _, fun rest => ?_⟩
    rw [List.cons_append, List.cons_append, he.bracket _ List.mem_cons_self, List.append_assoc,
      erase_joined (he.gap indent _) hparts, List.singleton_append,
      he.bracket _ (List.mem_cons_of_mem _ List.mem_cons_self), List.cons_append,
      List.cons_append, List.append_assoc]
    rfl

end Term

/-! ## The characters of atoms -/

namespace Grammar

open Reader Text

theorem mem_quoteChar {c d : Char} (h : c ∈ quoteChar d) :
    c ∈ ['\\', '"', 'n', 't'] ∨ c = d ∧ c ≠ '\n' := by
  unfold quoteChar at h
  split at h
  case isTrue => exact .inl (by grind)
  case isFalse =>
    split at h
    case isTrue => exact .inl (by grind)
    case isFalse =>
      split at h
      case isTrue => exact .inl (by grind)
      case isFalse hnewline =>
        split at h
        case isTrue => exact .inl (by grind)
        case isFalse =>
          obtain rfl := List.mem_singleton.mp h
          exact .inr ⟨rfl, hnewline⟩

section Atoms

variable {t : Term} {c : Char}

theorem isNameChar_of_mem_intDigits {n : Int} (h : c ∈ intDigits n) : isNameChar c = true := by
  cases n with
  | ofNat n => exact isNameChar_of_isDigit ((numeral_natDigits n).isDigit c h)
  | negSucc n =>
    rcases List.mem_cons.mp h with rfl | hdigit
    · decide
    · exact isNameChar_of_isDigit ((numeral_natDigits (n + 1)).isDigit c hdigit)

/-- The characters of an atom are those of names, the marks of strings and booleans, and whatever
a string holds, except for line breaks. -/
theorem mem_spelledChars (ht : WellNamed t) (hatom : ∀ terms, t ≠ .list terms)
    (hc : c ∈ t.spelledChars) :
    isNameChar c = true ∨ c ∈ ['"', '\\', '#'] ∨
      c ≠ '\n' ∧ ∃ s, t = .string s ∧ c ∈ s.toList := by
  cases ht with
  | nil =>
    have hall : ['N', 'I', 'L'].all isNameChar = true := rfl
    exact .inl (List.all_eq_true.mp hall c hc)
  | boolean b =>
    rcases List.mem_cons.mp hc with rfl | hletter
    · exact .inr (.inl (by decide))
    · rw [List.mem_singleton.mp hletter]
      cases b <;> exact .inl rfl
  | number _ => exact .inl (isNameChar_of_mem_intDigits hc)
  | string s =>
    rw [Term.spelledChars, quoteChars, List.cons_append, List.mem_cons, List.mem_append,
      List.mem_flatMap, List.mem_singleton] at hc
    rcases hc with rfl | ⟨d, hd, hquoted⟩ | rfl
    · exact .inr (.inl (by decide))
    · rcases mem_quoteChar hquoted with hmark | ⟨rfl, hnewline⟩
      · simp only [List.mem_cons, List.not_mem_nil, or_false] at hmark
        rcases hmark with rfl | rfl | rfl | rfl
        · exact .inr (.inl (by decide))
        · exact .inr (.inl (by decide))
        · exact .inl (by decide)
        · exact .inl (by decide)
      · exact .inr (.inr ⟨hnewline, s, rfl, hd⟩)
    · exact .inr (.inl (by decide))
  | identifier hname => exact .inl (hname.1.isNameChar c hc)
  | list _ => exact absurd rfl (hatom _)

theorem newline_notMem_spelledChars (ht : WellNamed t) (hatom : ∀ terms, t ≠ .list terms) :
    '\n' ∉ t.spelledChars := by
  intro hc
  rcases mem_spelledChars ht hatom hc with hname | hmark | ⟨hne, -⟩
  · exact absurd hname (by decide)
  · exact absurd hmark (by decide)
  · exact hne rfl

theorem escape_notMem_spelledChars (ht : WellNamed t) (hatom : ∀ terms, t ≠ .list terms)
    (hstring : ∀ s, t = .string s → '\x1b' ∉ s.toList) : '\x1b' ∉ t.spelledChars := by
  intro hc
  rcases mem_spelledChars ht hatom hc with hname | hmark | ⟨-, s, hs, hmem⟩
  · exact absurd hname (by decide)
  · exact absurd hmark (by decide)
  · exact hstring s hs hmem

theorem head?_spelledChars_ne_space (ht : WellNamed t) (hatom : ∀ terms, t ≠ .list terms)
    (rest : List Char) : (t.spelledChars ++ rest).head? ≠ some ' ' := by
  obtain ⟨bits, hbits⟩ := ht.exists_bits hatom
  obtain ⟨c, more, htext, hblank⟩ :=
    (hbits ⟨max 2 bits, Nat.le_max_left ..⟩ (Nat.le_max_right ..)).exists_cons
  rw [htext, List.cons_append, List.head?_cons]
  intro hspace
  rw [Option.some.inj hspace] at hblank
  exact absurd hblank (by decide)

end Atoms

end Grammar

/-! ## What wrapping and colours add -/

namespace Term

open Text Grammar

mutual

/-- The strings in a term, at any depth. -/
def strings : Term → List String
  | .string s => [s]
  | .list terms => stringsAll terms
  | _ => []

/-- The strings in several terms. -/
def stringsAll : List Term → List String
  | [] => []
  | t :: ts => strings t ++ stringsAll ts

end

theorem mem_stringsAll {s : String} {terms : List Term} :
    s ∈ stringsAll terms ↔ ∃ t ∈ terms, s ∈ t.strings := by
  induction terms with
  | nil => simp [stringsAll]
  | cons t ts ih => simp [stringsAll, ih]

theorem bracket_plain : ∀ c ∈ ['[', ']'], '\n' ∉ [c] ∧ '\x1b' ∉ [c] := by
  refine List.forall_mem_cons.mpr ⟨⟨?_, ?_⟩, List.forall_mem_singleton.mpr ⟨?_, ?_⟩⟩
  all_goals decide

/-- Erasing the line breaks of a wrapped term gives its one-line form. -/
theorem erasure_breaks (limit : LineLimit) :
    Erasure unwrapChars (fun next => next.head? ≠ some ' ') WellNamed (fun _ => none)
      (fun _ => none) limit.allows (fun _ => true) where
  bracket_front _ h := absurd (Option.some.inj h) (by decide)
  bracket c hc rest := unwrapChars_append (bracket_plain c hc).1 rest
  gap indent flat next hnext := by
    rw [elementGap, elementGap, if_pos rfl]
    split
    · exact unwrapChars_append (by decide) next
    · exact unwrapChars_lineBreak indent hnext
  atom t ht hatom :=
    ⟨head?_spelledChars_ne_space ht hatom, unwrapChars_append (newline_notMem_spelledChars ht hatom)⟩
  element _ ht := by
    cases ht with
    | list hterms => exact hterms

/-- Deleting the colour codes of a coloured term gives the term without colours, wrapped in the
same way. -/
theorem erasure_colors (color? : Term → Option Nat) (allows : Int → Bool) :
    Erasure withoutColorChars (fun _ => True)
      (fun t => WellNamed t ∧ ∀ s ∈ t.strings, '\x1b' ∉ s.toList) color? (fun _ => none)
      allows allows where
  bracket_front _ := trivial
  bracket c hc rest := withoutColorChars_append (bracket_plain c hc).2 rest
  gap indent flat next _ := by
    refine withoutColorChars_append ?_ next
    rw [elementGap]
    split
    · decide
    · rw [lineBreak, List.mem_cons, List.mem_replicate]
      rintro (h | ⟨-, h⟩)
      · exact absurd h (by decide)
      · exact absurd h (by decide)
  atom t ht hatom := by
    refine ⟨fun _ => trivial, fun rest => ?_⟩
    have hescape : '\x1b' ∉ t.spelledChars := by
      refine escape_notMem_spelledChars ht.1 hatom fun s hs => ht.2 s ?_
      rw [hs]
      exact List.mem_singleton.mpr rfl
    cases color? t with
    | none => exact withoutColorChars_append hescape rest
    | some color => exact withoutColorChars_inColor color hescape rest
  element terms ht t hmem := by
    obtain ⟨hnamed, hstrings⟩ := ht
    cases hnamed with
    | list hterms =>
      exact ⟨hterms t hmem, fun s hs => hstrings s (mem_stringsAll.mpr ⟨t, hmem, hs⟩)⟩

theorem layout_eq {scope : Scope} {isFunction : String → Bool} {options : LayoutOptions}
    (hscope : options.color = true → Resolves scope isFunction)
    (hlimit : ∀ kind, options.maxLineLength ≠ .foreign kind) (indent : Int) {t : Term}
    (h : t.isProper = true) : t.layout scope options indent
      = unlessOverlong t.isWritable (String.ofList
        (t.arranged (colorUnder? isFunction options) options.maxLineLength.allows indent)) := by
  rw [layout, layoutChars_eq hscope hlimit indent t h, unlessOverlong_map]

/-- A term without colours is the same for all names of functions. -/
theorem colorUnder?_of_plain (isFunction : String → Bool) {options : LayoutOptions}
    (h : options.color = false) : colorUnder? isFunction options = fun _ => none := by
  funext t
  cases t <;> simp only [colorUnder?, h] <;> rfl

section Erased

variable {t : Term} {limit : LineLimit}

theorem unwrap_arranged (ht : WellNamed t) (limit : LineLimit) (indent : Int) :
    unwrap (String.ofList (t.arranged (fun _ => none) limit.allows indent)) = t.spelled := by
  have herase := ((erasure_breaks limit).arranged indent ht).erase []
  rw [arranged_unlimited, unwrapChars, List.append_nil, List.append_nil] at herase
  rw [unwrap, String.toList_ofList]
  exact congrArg String.ofList herase

theorem withoutColors_arranged (ht : WellNamed t) (hstrings : ∀ s ∈ t.strings, '\x1b' ∉ s.toList)
    (color? : Term → Option Nat) (limit : LineLimit) (indent : Int) :
    withoutColors (String.ofList (t.arranged color? limit.allows indent))
      = String.ofList (t.arranged (fun _ => none) limit.allows indent) := by
  have herase :=
    ((erasure_colors color? limit.allows).arranged indent ⟨ht, hstrings⟩).erase []
  rw [withoutColorChars, List.append_nil, List.append_nil] at herase
  rw [withoutColors, String.toList_ofList]
  exact congrArg String.ofList herase

end Erased

/-- Laying a term out adds nothing but layout and colours to its rendering. Let the names in the
term be names for the reader, and let the line length be limited by any number, at any indentation
and with any context or none. The rendering exists unless a number in the term is too long. Without
colours: if the rendering and its indentation fit into a line, the term is laid out as it is
rendered, so that no list in it is wrapped at any depth; and whatever the limit is, putting one
space for each line break and the spaces after it gives the rendering, and the layout fails just
when the rendering does. And if no string in the term holds an escape character, deleting the colour
codes from the coloured layout gives the one without colours, and the one fails just when the other
does; the only exception is a context whose frame is gone, for it may be refused when a name is
looked up in it. -/
theorem layout_adds_breaks_and_colors {t : Term} (ht : WellNamed t) (scope : Scope)
    {limit : LineLimit} (hlimit : ∀ kind, limit ≠ .foreign kind) (indent : Int) :
    let plain := t.layout scope { color := false, maxLineLength := limit } indent
    let colored := t.layout scope { color := true, maxLineLength := limit } indent
    (t.isWritable = true → ∃ rendered, t.render = .ok rendered) ∧
    (t.isWritable = false → t.render = .error .overlong) ∧
    (∀ rendered, t.render = .ok rendered →
      limit.fits (rendered.length + 2 * indent) = .ok true → plain = .ok rendered) ∧
    plain.map unwrap = t.render ∧
    ((∀ s ∈ t.strings, '\x1b' ∉ s.toList) → colored.map withoutColors = plain ∨
      ∃ context arena, scope = some (context, arena) ∧
        context.frame arena = .error (.staleFrame context.handle) ∧
        colored = .error (.staleFrame context.handle)) := by
  intro plain colored
  have hproper := ht.isProper
  have hplain : plain = unlessOverlong t.isWritable
      (String.ofList (t.arranged (fun _ => none) limit.allows indent)) := by
    have hlayout := @layout_eq scope (fun _ => false) { color := false, maxLineLength := limit }
      nofun hlimit indent t hproper
    rwa [colorUnder?_of_plain _ rfl] at hlayout
  have hcolored : ∀ scope' isFunction, Resolves scope' isFunction →
      (∀ s ∈ t.strings, '\x1b' ∉ s.toList) →
      (t.layout scope' { color := true, maxLineLength := limit } indent).map withoutColors
        = plain := by
    intro scope' isFunction hscope hstrings
    rw [layout_eq (fun _ => hscope) hlimit indent hproper, unlessOverlong_map,
      withoutColors_arranged ht hstrings, hplain]
  refine ⟨fun hw => ⟨_, render_of_isWritable hproper hw⟩, render_of_not_isWritable hproper,
    fun rendered hrendered hfits => ?_, ?_, fun hstrings => ?_⟩
  · obtain ⟨-, hwritable, rfl⟩ := render_eq_ok_iff.mp hrendered
    rw [LineLimit.fits_eq hlimit, spelled, String.length_ofList, Int.mul_comm] at hfits
    rw [hplain, hwritable, arranged_of_allows (Except.ok.inj hfits)]
    rfl
  · rw [hplain, unlessOverlong_map, unwrap_arranged ht, render_eq hproper]
  · rcases scope_cases scope with ⟨isFunction, hscope⟩ | ⟨context, arena, hstale⟩
    · exact .inl (hcolored scope isFunction hscope hstrings)
    · rcases layoutChars_of_isStale hstale indent t with hlayout | hlayout
      · refine .inr ⟨context, arena, hstale.scope_eq, hstale.frame_eq, ?_⟩
        show Except.map _ (layoutChars ..) = _
        rw [hlayout]
        rfl
      · refine .inl ?_
        have hnone := hcolored none (fun _ => false) (fun _ => rfl) hstrings
        rwa [layout, ← hlayout] at hnone

/-- A list of two lists that does not fit into ten columns at the second level, though its
first element fits: the outer list is wrapped and the first element is not. A context whose frame is
gone is refused when `+` is looked up in it. -/
theorem layout_adds_breaks_and_colors_nested :
    let inner : Term := .list [.identifier "+", .number 1]
    let outer : Term := .list [inner, .list [.string "a\nb"], .nil]
    let limit : LineLimit := .atMost 10
    let arena : Arena :=
      { frames := [{ functions := standardFunctions, parent := none, generation := 2 }] }
    let live : Scope := some (⟨0, 2⟩, arena)
    let stale : Scope := some (⟨0, 1⟩, arena)
    let plain := outer.layout live { color := false, maxLineLength := limit } 1
    plain = .ok "[[+ 1]\n    [\"a\\nb\"]\n    NIL]" ∧ plain.map unwrap = outer.render ∧
      (outer.layout live { maxLineLength := limit } 1).map withoutColors = plain ∧
      outer.layout stale { maxLineLength := limit } 1 = .error (.staleFrame 0) ∧
      ∃ text, inner.render = .ok text ∧ limit.fits (text.length + 2 * 2) = .ok true ∧
        inner.layout live { color := false, maxLineLength := limit } 2 = .ok text := by
  intro inner outer limit arena live stale plain
  have hname : IsName "+" := ⟨.intro rfl nofun (by decide), by decide⟩
  have hinner : WellNamed inner :=
    .list (List.forall_mem_cons.mpr ⟨.identifier hname, List.forall_mem_singleton.mpr
      (.number trivial)⟩)
  have houter : WellNamed outer :=
    .list (List.forall_mem_cons.mpr ⟨hinner, List.forall_mem_cons.mpr
      ⟨.list (List.forall_mem_singleton.mpr (.string _)), List.forall_mem_singleton.mpr .nil⟩⟩)
  have hlimit : ∀ kind, limit ≠ .foreign kind := fun _ => LineLimit.noConfusion
  obtain ⟨-, -, -, hunwrap, hcolors⟩ := layout_adds_breaks_and_colors houter live hlimit 1
  obtain ⟨-, -, hfits, -, -⟩ := layout_adds_breaks_and_colors hinner live hlimit 2
  have hstrings : ∀ s ∈ outer.strings, '\x1b' ∉ s.toList :=
    List.forall_mem_singleton.mpr (by decide)
  have hcolored : (outer.layout live { maxLineLength := limit } 1).map withoutColors = plain := by
    rcases hcolors hstrings with hsame | ⟨context, arena', hscope, hframe, -⟩
    · exact hsame
    · obtain ⟨rfl, rfl⟩ := Prod.mk.inj (Option.some.inj hscope)
      cases hframe
  have htext : inner.render = .ok "[+ 1]" := by decide +kernel
  exact ⟨by decide +kernel, hunwrap, hcolored, by decide +kernel, _, htext, rfl,
    hfits _ htext rfl⟩

end Term

end ScopeLisp
