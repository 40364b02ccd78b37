import ScopeLisp.Proofs.Grammar.Rejection
import ScopeLisp.Proofs.Grammar.RoundTrip

/-!
# Renderings can be told apart

Two terms that are rendered by the same text are the same term, provided that their names are names
for the reader. Numbers may be of any size that can be written, and strings may hold any characters.
The elements of a list are set apart by single spaces only, and strings may hold spaces and
brackets, so the statement that carries the argument is about a rendering with something after it:
where the rendering ends is decided by the text itself. For atoms this is because the reader reads
them maximally, under a width that is large enough for the numbers at hand. For lists it is by
induction, element by element.

* `WellNamed`: all names in a term are names for the reader.
* `spelledChars_append_inj`: a rendering is decoded in one way only, whatever follows it.
* `render_unambiguous`: plain form and rendering are the same, and terms are determined by them.
-/

namespace ScopeLisp

/-- A width of more bits than the magnitude of an integer has room for the integer. -/
theorem Width.within_of_natAbs_lt {width : Width} {n : Int} (h : n.natAbs < width.bits) :
    width.low ≤ n ∧ n ≤ width.high := by
  have hpow : width.bits - 1 < width.half := Nat.lt_two_pow_self
  simp only [Width.low, Width.high]
  omega

namespace Grammar

open Reader

/-- All names in the term are names for the reader, and nothing foreign is in it. -/
def WellNamed : Term → Prop := Term.Only (fun _ => True) IsName

/-! ## Atoms -/

section Atoms

variable {t t' : Term} {rest rest' : List Char}

theorem WellNamed.exists_bits (h : WellNamed t) (hatom : ∀ terms, t ≠ .list terms) :
    ∃ bits, ∀ width : Width, bits ≤ width.bits → Atom width t t.spelledChars := by
  cases h with
  | nil => exact ⟨0, fun width _ => .literal .unit⟩
  | boolean b =>
    refine ⟨0, fun width _ => .literal ?_⟩
    cases b with
    | true => exact .yes
    | false => exact .no
  | @number n _ =>
    exact ⟨n.natAbs + 1, fun width hbits => atom_intDigits (Width.within_of_natAbs_lt hbits)⟩
  | string s => exact ⟨0, fun width _ => atom_quoteChars s⟩
  | identifier hname => exact ⟨0, fun width _ => atom_name hname⟩
  | list _ => exact absurd rfl (hatom _)

theorem endsAt_of_continuesName (h : continuesName rest = false) : EndsAt t rest := by
  cases rest with
  | nil => exact endsAt_of_blanks nofun
  | cons c more => exact endsAt_cons h more

theorem Atom.read_front {width : Width} {form : List Char} (h : Atom width t form)
    (hrest : continuesName rest = false) : atom (.ok width) (form ++ rest) = .ok ⟨t, rest⟩ := by
  have hskip : skipBlanks (form ++ rest) = form ++ rest :=
    (skipBlanks_eq_append_iff h.exists_cons).mpr ⟨[], rfl, nofun⟩
  exact h.atom_eq hskip (endsAt_of_continuesName hrest)

/-- The reader takes as much as there is of an atom, so its text ends in one place only. -/
theorem atom_spelledChars_append_inj (ht : WellNamed t) (ht' : WellNamed t')
    (hatom : ∀ terms, t ≠ .list terms) (hatom' : ∀ terms, t' ≠ .list terms)
    (hrest : continuesName rest = false) (hrest' : continuesName rest' = false)
    (h : t.spelledChars ++ rest = t'.spelledChars ++ rest') : t = t' ∧ rest = rest' := by
  obtain ⟨bits, hbits⟩ := ht.exists_bits hatom
  obtain ⟨bits', hbits'⟩ := ht'.exists_bits hatom'
  let width : Width := ⟨max 2 (max bits bits'), Nat.le_max_left ..⟩
  have hread := (hbits width (by simp only [width]; omega)).read_front hrest
  have hread' := (hbits' width (by simp only [width]; omega)).read_front hrest'
  rw [h, hread'] at hread
  cases hread
  exact ⟨rfl, rfl⟩

/-- No atom begins with a bracket. -/
theorem atom_spelledChars_ne_bracket (ht : WellNamed t) (hatom : ∀ terms, t ≠ .list terms) {c : Char}
    (hc : c = '[' ∨ c = ']') (more : List Char) : t.spelledChars ++ rest ≠ c :: more := by
  intro h
  obtain ⟨bits, hbits⟩ := ht.exists_bits hatom
  have hform := hbits ⟨max 2 bits, Nat.le_max_left ..⟩ (Nat.le_max_right ..)
  obtain ⟨d, after, htext, -⟩ := hform.exists_cons
  obtain rfl : d = c := by
    rw [htext] at h
    exact (List.cons.inj h).1
  have hread := hform.read_front (show continuesName [] = false from rfl)
  rw [List.append_nil, htext] at hread
  have hskip : skipBlanks (d :: after) = d :: after := by
    rcases hc with rfl | rfl <;> rfl
  have hnothing : BeginsNothing (skipBlanks (d :: after)) := by
    rw [hskip]
    rcases hc with rfl | rfl <;> exact .other (by decide) (by decide) (by decide)
  exact hnothing.declines_atom.ne_ok _ hread

end Atoms

/-! ## Lists -/

section Lists

variable {rest rest' : List Char}

/-- No rendering begins with a closing bracket. -/
theorem spelledChars_ne_close {t : Term} (ht : WellNamed t) (more : List Char) :
    t.spelledChars ++ rest ≠ ']' :: more := by
  by_cases hlist : ∃ terms, t = .list terms
  · obtain ⟨terms, rfl⟩ := hlist
    rw [Term.spelledChars_list]
    intro h
    cases h
  · exact atom_spelledChars_ne_bracket ht (fun terms h => hlist ⟨terms, h⟩) (.inr rfl) more

/-- What follows an element of a list, up to the closing bracket and beyond: a space and the
other elements, or the bracket. -/
def afterElement (rest : List Char) : List Term → List Char
  | [] => ']' :: rest
  | next :: more => ' ' :: (Text.spaced ((next :: more).map Term.spelledChars) ++ ']' :: rest)

theorem spaced_cons_append (t : Term) (terms : List Term) (rest : List Char) :
    Text.spaced ((t :: terms).map Term.spelledChars) ++ ']' :: rest
      = t.spelledChars ++ afterElement rest terms := by
  cases terms with
  | nil => rfl
  | cons next more =>
    rw [List.map_cons, List.map_cons, Text.spaced, Text.joined_cons_cons, List.append_assoc,
      List.append_assoc]
    rfl

theorem continuesName_afterElement (rest : List Char) (terms : List Term) :
    continuesName (afterElement rest terms) = false := by
  cases terms <;> rfl

/-- The text of the term ends in one place only, whatever follows it. -/
def Decodes (t : Term) : Prop :=
  ∀ t' rest rest', WellNamed t' → continuesName rest = false → continuesName rest' = false →
    t.spelledChars ++ rest = t'.spelledChars ++ rest' → t = t' ∧ rest = rest'

theorem spaced_append_inj {terms terms' : List Term} (hdecodes : ∀ t ∈ terms, Decodes t)
    (hnamed : ∀ t ∈ terms, WellNamed t) (hnamed' : ∀ t ∈ terms', WellNamed t)
    (h : Text.spaced (terms.map Term.spelledChars) ++ ']' :: rest
      = Text.spaced (terms'.map Term.spelledChars) ++ ']' :: rest') :
    terms = terms' ∧ rest = rest' := by
  induction terms generalizing terms' with
  | nil =>
    cases terms' with
    | nil => exact ⟨rfl, (List.cons.inj h).2⟩
    | cons t' terms' =>
      rw [spaced_cons_append] at h
      exact absurd h.symm (spelledChars_ne_close (hnamed' t' List.mem_cons_self) _)
  | cons t terms ih =>
    cases terms' with
    | nil =>
      rw [spaced_cons_append] at h
      exact absurd h (spelledChars_ne_close (hnamed t List.mem_cons_self) _)
    | cons t' terms' =>
      rw [spaced_cons_append, spaced_cons_append] at h
      obtain ⟨rfl, hafter⟩ := hdecodes t List.mem_cons_self t' _ _
        (hnamed' t' List.mem_cons_self) (continuesName_afterElement rest terms)
        (continuesName_afterElement rest' terms') h
      -- a space or a bracket: both lists go on, or both end here
      cases terms with
      | nil =>
        cases terms' with
        | nil => exact ⟨rfl, (List.cons.inj hafter).2⟩
        | cons next more => cases hafter
      | cons next more =>
        cases terms' with
        | nil => cases hafter
        | cons next' more' =>
          obtain ⟨hterms, hrest⟩ := ih (fun t ht => hdecodes t (List.mem_cons_of_mem _ ht))
            (fun t ht => hnamed t (List.mem_cons_of_mem _ ht))
            (fun t ht => hnamed' t (List.mem_cons_of_mem _ ht)) (List.cons.inj hafter).2
          exact ⟨by rw [hterms], hrest⟩

end Lists

/-! ## Terms -/

theorem decodes_of_atom {t : Term} (ht : WellNamed t) (hatom : ∀ terms, t ≠ .list terms) :
    Decodes t := by
  intro t' rest rest' ht' hrest hrest' h
  by_cases hlist : ∃ terms, t' = .list terms
  · obtain ⟨terms, rfl⟩ := hlist
    rw [Term.spelledChars_list] at h
    exact absurd h (atom_spelledChars_ne_bracket ht hatom (.inl rfl) _)
  · have hatom' : ∀ terms, t' ≠ .list terms := fun terms heq => hlist ⟨terms, heq⟩
    exact atom_spelledChars_append_inj ht ht' hatom hatom' hrest hrest' h

theorem spelledChars_append_inj {t : Term} (ht : WellNamed t) : Decodes t := by
  induction t using Term.induct with
  | nil | boolean | number | string | identifier | foreign =>
    exact decodes_of_atom ht fun _ heq => by cases heq
  | list terms ih =>
    intro t' rest rest' ht' hrest hrest' h
    cases ht with
    | list hnamed =>
      by_cases hlist : ∃ terms', t' = .list terms'
      · obtain ⟨terms', rfl⟩ := hlist
        cases ht' with
        | list hnamed' =>
          rw [Term.spelledChars_list, Term.spelledChars_list, List.append_assoc, List.append_assoc] at h
          obtain ⟨rfl, hsame⟩ := spaced_append_inj (fun t ht => ih t ht (hnamed t ht)) hnamed
            hnamed' (List.cons.inj h).2
          exact ⟨rfl, hsame⟩
      · rw [Term.spelledChars_list] at h
        exact absurd h.symm
          (atom_spelledChars_ne_bracket ht' (fun terms heq => hlist ⟨terms, heq⟩) (.inl rfl) _)

/-- The two written forms of a term agree: without a foreign value in it, a term is rendered by its
plain form, and if a number in it is too long, the rendering and the plain form fail alike; nothing
else makes them fail. And renderings are unambiguous: terms whose names are names for the reader,
with any numbers and any strings in them, are the same if they are rendered by the same text. -/
theorem render_unambiguous :
    (∀ t : Term, t.isProper = true → t.render = t.text ∧
      (t.isWritable = true → ∃ s, t.render = .ok s) ∧
      (t.isWritable = false → t.render = .error .overlong)) ∧
    ∀ (t t' : Term) (s : String), WellNamed t → WellNamed t' →
      t.render = .ok s → t'.render = .ok s → t = t' := by
  refine ⟨fun t h => ⟨Term.render_eq_text h, fun hw => ⟨_, Term.render_of_isWritable h hw⟩,
    Term.render_of_not_isWritable h⟩, fun t t' s ht ht' h h' => ?_⟩
  obtain ⟨-, -, hs⟩ := Term.render_eq_ok_iff.mp h
  obtain ⟨-, -, hs'⟩ := Term.render_eq_ok_iff.mp h'
  have htext : t.spelledChars ++ [] = t'.spelledChars ++ [] :=
    congrArg (· ++ []) (String.ofList_injective (hs.trans hs'.symm))
  exact (spelledChars_append_inj ht t' [] [] ht' rfl rfl htext).1

/-- One string that holds quotes and a space is not taken for two strings, next to a number beyond
sixty-four bits and a name that begins with a minus sign. -/
theorem render_unambiguous_quotes :
    let others : List Term := [.number (-1180591620717411303424), .identifier "-x"]
    let joined : Term := .list (.string "a\" \"b" :: others)
    let apart : Term := .list (.string "a" :: .string "b" :: others)
    let again : Term := .list ([.string ("a\" " ++ "\"b")] ++ others)
    WellNamed joined ∧ WellNamed apart ∧ joined.render = joined.text ∧
      ∃ s, joined.render = .ok s ∧ apart.render ≠ .ok s ∧ again.render = .ok s ∧
        joined = again := by
  intro others joined apart again
  have hname : IsName "-x" :=
    ⟨.intro rfl (List.all_eq_true.mp rfl) (by decide), by decide⟩
  have hothers : ∀ t ∈ others, WellNamed t :=
    List.forall_mem_cons.mpr ⟨.number trivial, List.forall_mem_singleton.mpr (.identifier hname)⟩
  have hjoined : WellNamed joined := .list (List.forall_mem_cons.mpr ⟨.string _, hothers⟩)
  have hapart : WellNamed apart :=
    .list (List.forall_mem_cons.mpr ⟨.string _, List.forall_mem_cons.mpr ⟨.string _, hothers⟩⟩)
  have hagain : WellNamed again := .list (List.forall_mem_cons.mpr ⟨.string _, hothers⟩)
  have hsame : joined.render = again.render := by
    have hstring : "a\" " ++ "\"b" = "a\" \"b" := by decide
    simp only [joined, again, hstring, List.singleton_append]
  have hwritable : joined.isWritable = true := by
    have hnumber : Text.isWritable (-1180591620717411303424) = true := by decide +kernel
    simp only [joined, others, Term.isWritable, Term.isWritableAll, hnumber, Bool.and_self]
  obtain ⟨htext, hexists, -⟩ := render_unambiguous.1 joined rfl
  obtain ⟨s, hs⟩ := hexists hwritable
  refine ⟨hjoined, hapart, htext, s, hs, fun h => ?_, hsame ▸ hs,
    render_unambiguous.2 joined again s hjoined hagain hs (hsame ▸ hs)⟩
  have hterms := Term.list.inj (render_unambiguous.2 joined apart s hjoined hapart hs h)
  have hstrings : "a\" \"b" = "a" := Term.string.inj (List.cons.inj hterms).1
  exact absurd hstrings (by decide)

end Grammar

end ScopeLisp
