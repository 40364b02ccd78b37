import ScopeLisp.Proofs.Grammar.Atoms

/-!
# The reader and its grammar

The reader accepts what the grammar writes, and nothing else. What is read is a written form
because every parser that has read something has read a form of its kind (by induction on the
length of the input). What is written is read because the parsers that are tried too early
decline, and because an element of a list ends where the next one begins (by induction on the
term).

* `leads_of_term`, `readsBack`: the two directions, for a term at the front of an input.
* `parse_eq_ok_iff_written`: the reader accepts exactly the written forms.
* `Written.unique`: the grammar is unambiguous.
-/

namespace ScopeLisp.Grammar

open Reader

/-- A written form of the term stands at the front of the input, after some blanks, and ends
where `rest` begins. -/
def Leads (width : Width) (t : Term) (source rest : List Char) : Prop :=
  ∃ gap form, source = gap ++ form ++ rest ∧ (∀ c ∈ gap, isBlank c = true) ∧
    Written width t form ∧ EndsAt t rest

theorem leads_iff {width : Width} {t : Term} {source rest : List Char} :
    Leads width t source rest ↔
      ∃ form, skipBlanks source = form ++ rest ∧ Written width t form ∧ EndsAt t rest := by
  constructor
  · rintro ⟨gap, form, hsource, hgap, hwritten, hends⟩
    exact ⟨form, (skipBlanks_eq_append_iff hwritten.exists_cons).mpr ⟨gap, hsource, hgap⟩,
      hwritten, hends⟩
  · rintro ⟨form, hsource, hwritten, hends⟩
    obtain ⟨gap, hgap⟩ := (skipBlanks_eq_append_iff hwritten.exists_cons).mp hsource
    exact ⟨gap, form, hgap.1, hgap.2, hwritten, hends⟩

/-! ## Lists -/

theorem skipBlanks_eq_close_iff {source rest : List Char} :
    skipBlanks source = ')' :: rest ↔
      ∃ gap, source = gap ++ [')'] ++ rest ∧ ∀ c ∈ gap, isBlank c = true :=
  skipBlanks_eq_append_iff ⟨')', [], rfl, by decide⟩

theorem list_eq_ok_iff {width : WidthSetting} {source rest : List Char} {t : Term} :
    list width source = .ok ⟨t, rest⟩ ↔
      ∃ inside terms after, t = .list terms ∧ skipBlanks source = '(' :: inside ∧
        Run (term width) inside terms after ∧ skipBlanks after = ')' :: rest := by
  rw [list, listOf]
  constructor
  · intro h
    split at h
    · rename_i inside hsource
      split at h
      · cases h
      · rename_i terms after hmany
        split at h
        · rename_i rest hafter
          cases h
          exact ⟨inside, terms, after, rfl, hsource, many_eq_ok_iff.mp hmany, hafter⟩
        · cases h
    · cases h
  · rintro ⟨inside, terms, after, rfl, hsource, hrun, hafter⟩
    simp only [hsource, many_eq_ok_iff.mpr hrun, hafter]

/-- No term begins with a closing parenthesis. -/
theorem declines_term {width : WidthSetting} {source rest : List Char}
    (h : skipBlanks source = ')' :: rest) : Declines (term width) source := by
  have hlist : Declines (list width) source := by
    have hfail : list width source = failAt .notAList (')' :: rest) := by
      simp only [list, listOf, h]
      rfl
    exact declines_of_failAt hfail
  have hboth : Declines (alternative [atom width, list width]) source := by
    refine declines_alternative fun p hp => ?_
    simp only [List.mem_cons, List.not_mem_nil, or_false] at hp
    rcases hp with rfl | rfl
    · exact declines_atom h (.inr rfl)
    · exact hlist
  rw [Declines, term_eq]
  exact hboth

/-! ## What is read is written -/

/-- Elements that were read up to a closing parenthesis are written, provided that each single
element is. -/
theorem exists_elements_of_run {width : Width} {inside after rest : List Char}
    {terms : List Term} (hrun : Run (term (.ok width)) inside terms after)
    (hclose : skipBlanks after = ')' :: rest)
    (hterm : ∀ s parsed, s.length ≤ inside.length → term (.ok width) s = .ok parsed →
      Leads width parsed.value s parsed.rest) :
    ∃ body, inside = body ++ rest ∧ Elements width terms body := by
  induction hrun with
  | @stop source _ =>
    obtain ⟨gap, hsource, hgap⟩ := skipBlanks_eq_close_iff.mp hclose
    exact ⟨gap ++ [')'], hsource, .nil hgap⟩
  | stuck hread hlong => exact absurd (shortens_term _ _ _ hread) hlong
  | @step source middle _ value values hread hshort _ ih =>
    obtain ⟨body, rfl, hbody⟩ := ih hclose fun s parsed hs =>
      hterm s parsed (Nat.le_trans hs (Nat.le_of_lt hshort))
    obtain ⟨gap, form, hsource, hgap, hwritten, hends⟩ := hterm _ _ (Nat.le_refl _) hread
    -- the element ends where the rest of the body begins, and that is never empty
    refine ⟨gap ++ form ++ body, ?_, .cons hgap hwritten ?_ hbody⟩
    · rw [hsource, List.append_assoc (gap ++ form)]
    · exact (endsAt_append hbody.ne_nil rest).mp hends

theorem leads_of_term {width : Width} {source : List Char} {parsed : Parsed Term}
    (h : term (.ok width) source = .ok parsed) :
    Leads width parsed.value source parsed.rest := by
  induction hn : source.length using Nat.strongRecOn generalizing source parsed with
  | _ n ih =>
    obtain ⟨t, rest⟩ := parsed
    rw [term_eq, alternative_cons_eq_ok_iff, alternative_cons_eq_ok_iff] at h
    rcases h with hatom | ⟨-, hlist | ⟨-, hnone⟩⟩
    · obtain ⟨form, hsource, hform, hends⟩ := atom_eq_ok_iff.mp hatom
      exact leads_iff.mpr ⟨form, hsource, .atom hform, hends⟩
    · obtain ⟨inside, terms, after, rfl, hsource, hrun, hclose⟩ := list_eq_ok_iff.mp hlist
      have hshort : inside.length < n := by
        have hskip := length_skipBlanks_le source
        rw [hsource, List.length_cons, hn] at hskip
        exact hskip
      obtain ⟨body, rfl, hbody⟩ := exists_elements_of_run hrun hclose fun s parsed hs hread =>
        ih s.length (Nat.lt_of_le_of_lt hs hshort) hread rfl
      exact leads_iff.mpr ⟨'(' :: body, hsource, .list hbody, trivial⟩
    · exact absurd hnone (alternative_nil_ne_ok _ _)

/-! ## What is written is read -/

/-- Whatever is written for the term is read as this term, wherever it ends. -/
def ReadsBack (width : Width) (t : Term) : Prop :=
  ∀ form source rest, Written width t form → skipBlanks source = form ++ rest → EndsAt t rest →
    term (.ok width) source = .ok ⟨t, rest⟩

theorem Elements.exists_run {width : Width} {terms : List Term} {body : List Char}
    (h : Elements width terms body) (hterms : ∀ t ∈ terms, ReadsBack width t)
    (rest : List Char) :
    ∃ after, Run (term (.ok width)) (body ++ rest) terms after ∧
      skipBlanks after = ')' :: rest := by
  induction terms generalizing body with
  | nil =>
    cases h with
    | @nil gap hgap =>
      have hclose : skipBlanks (gap ++ [')'] ++ rest) = ')' :: rest :=
        skipBlanks_eq_close_iff.mpr ⟨gap, rfl, hgap⟩
      exact ⟨_, .stop (declines_term hclose), hclose⟩
  | cons t terms ih =>
    cases h with
    | @cons _ _ gap form following hgap hwritten hends hrest =>
      obtain ⟨after, hrun, hclose⟩ :=
        ih hrest fun t ht => hterms t (List.mem_cons_of_mem _ ht)
      have hsource : skipBlanks (gap ++ form ++ following ++ rest) = form ++ (following ++ rest) :=
        (skipBlanks_eq_append_iff hwritten.exists_cons).mpr ⟨gap, List.append_assoc .., hgap⟩
      have hread := hterms t List.mem_cons_self form _ (following ++ rest) hwritten hsource
        ((endsAt_append hrest.ne_nil rest).mpr hends)
      exact ⟨after, .step hread (shortens_term _ _ _ hread) hrun, hclose⟩

theorem Atom.term_eq {width : Width} {source form rest : List Char} {t : Term}
    (h : Atom width t form) (hsource : skipBlanks source = form ++ rest) (hends : EndsAt t rest) :
    term (.ok width) source = .ok ⟨t, rest⟩ := by
  rw [Reader.term_eq, alternative_cons_eq_ok_iff]
  exact .inl (h.atom_eq hsource hends)

theorem readsBack (width : Width) (t : Term) : ReadsBack width t := by
  induction t using Term.induct with
  | nil | boolean | number | string | identifier | foreign =>
    intro form source rest hwritten hsource hends
    cases hwritten with
    | atom hatom => exact hatom.term_eq hsource hends
  | list terms ih =>
    intro form source rest hwritten hsource hends
    cases hwritten with
    | atom hatom => exact hatom.term_eq hsource hends
    | @list _ body hbody =>
      obtain ⟨after, hrun, hclose⟩ := hbody.exists_run ih rest
      rw [Reader.term_eq, alternative_cons_eq_ok_iff, alternative_cons_eq_ok_iff]
      refine .inr ⟨declines_atom hsource (.inl rfl), .inl ?_⟩
      exact list_eq_ok_iff.mpr ⟨body ++ rest, terms, after, rfl, hsource, hrun, hclose⟩

theorem term_eq_ok_iff {width : Width} {source rest : List Char} {t : Term} :
    term (.ok width) source = .ok ⟨t, rest⟩ ↔ Leads width t source rest := by
  constructor
  · exact leads_of_term
  · intro h
    obtain ⟨form, hsource, hwritten, hends⟩ := leads_iff.mp h
    exact readsBack width t form source rest hwritten hsource hends

/-- The grammar is unambiguous, even at the front of a longer input. -/
theorem Leads.unique {width : Width} {source rest rest' : List Char} {t t' : Term}
    (h : Leads width t source rest) (h' : Leads width t' source rest') : t = t' ∧ rest = rest' := by
  have hread := term_eq_ok_iff.mpr h
  rw [term_eq_ok_iff.mpr h'] at hread
  cases hread
  exact ⟨rfl, rfl⟩

theorem Written.unique {width : Width} {form : List Char} {t t' : Term}
    (h : Written width t form) (h' : Written width t' form) : t = t' := by
  have hleads : ∀ {t : Term}, Written width t form → Leads width t form [] := fun hwritten =>
    ⟨[], form, (List.append_nil form).symm, nofun, hwritten, endsAt_of_blanks nofun⟩
  exact ((hleads h).unique (hleads h')).1

/-! ## Settings -/

section Setting

variable {source : List Char} {error : SettingError}

theorem map_ne_setting {α β : Type} {f : α → β} {outcome : Outcome α}
    (h : outcome ≠ .error (.setting error)) :
    outcome.map (Parsed.map f) ≠ .error (.setting error) := by
  intro hmap
  cases outcome with
  | ok parsed => cases hmap
  | error e => exact h (congrArg Except.error (Except.error.inj hmap))

theorem stringBody_ne_setting : stringBody source ≠ .error (.setting error) := by
  fun_induction stringBody source with
  | case1 | case2 | case3 | case4 =>
    intro h
    cases h
  | case5 _ _ _ _ _ ih => exact map_ne_setting ih
  | case6 _ _ _ _ ih => exact map_ne_setting ih

theorem string_ne_setting : string source ≠ .error (.setting error) := by
  intro h
  rw [string] at h
  split at h
  · exact map_ne_setting stringBody_ne_setting h
  · cases h

theorem number_ne_setting (width : Width) :
    number (.ok width) source ≠ .error (.setting error) := by
  intro h
  simp only [number] at h
  split at h
  · cases h
  · split at h <;> cases h

theorem literal_ne_setting : literal source ≠ .error (.setting error) := by
  intro h
  rw [literal] at h
  split at h <;> cases h

theorem identifier_ne_setting : identifier source ≠ .error (.setting error) := by
  intro h
  rw [identifier] at h
  split at h
  · cases h
  · split at h
    · cases h
    · split at h <;> cases h

theorem atom_ne_setting (width : Width) : atom (.ok width) source ≠ .error (.setting error) := by
  intro h
  obtain ⟨p, hp, hsetting⟩ := exists_of_alternative_setting h
  simp only [List.mem_cons, List.not_mem_nil, or_false] at hp
  rcases hp with rfl | rfl | rfl | rfl
  · exact number_ne_setting width hsetting
  · exact string_ne_setting hsetting
  · exact literal_ne_setting hsetting
  · exact identifier_ne_setting hsetting

/-- A list complains about a setting only because one of its elements does. -/
theorem exists_of_list_setting {width : WidthSetting}
    (h : list width source = .error (.setting error)) :
    ∃ s : List Char, s.length < source.length ∧ term width s = .error (.setting error) := by
  rw [list, listOf] at h
  split at h
  · rename_i inside hsource
    have hskip := length_skipBlanks_le source
    rw [hsource, List.length_cons] at hskip
    split at h
    · rename_i e hmany
      cases h
      obtain ⟨s, hs, hsetting, -⟩ := exists_of_star_error hmany
      exact ⟨s, Nat.lt_of_le_of_lt hs hskip, hsetting⟩
    · split at h <;> cases h
  · cases h

theorem term_ne_setting (width : Width) : term (.ok width) source ≠ .error (.setting error) := by
  induction hn : source.length using Nat.strongRecOn generalizing source with
  | _ n ih =>
    intro h
    rw [term_eq] at h
    obtain ⟨p, hp, hsetting⟩ := exists_of_alternative_setting h
    simp only [List.mem_cons, List.not_mem_nil, or_false] at hp
    rcases hp with rfl | rfl
    · exact atom_ne_setting width hsetting
    · obtain ⟨s, hs, hterm⟩ := exists_of_list_setting hsetting
      exact ih s.length (hn ▸ hs) rfl hterm

/-- Under a well-formed width an input that is not read fails to be read. -/
theorem exists_failure_of_parse {width : Width} {source : String} {e : ReadError}
    (h : parse (.ok width) source = .error e) : ∃ failure, e = .failure failure := by
  rw [parse, parseChars] at h
  split at h
  · rename_i e hterm
    cases h
    cases e with
    | failure failure => exact ⟨failure, rfl⟩
    | setting error => exact absurd hterm (term_ne_setting width)
  · split at h <;> cases h
    exact ⟨_, rfl⟩

end Setting

/-! ## Whole inputs -/

theorem parse_eq_ok_iff {width : WidthSetting} {source : String} {t : Term} :
    parse width source = .ok t ↔
      ∃ rest, term width source.toList = .ok ⟨t, rest⟩ ∧ ∀ c ∈ rest, isBlank c = true := by
  rw [parse, parseChars]
  constructor
  · intro h
    split at h
    · cases h
    · rename_i read rest hread
      split at h
      · rename_i hblank
        cases h
        exact ⟨rest, hread, List.all_eq_true.mp hblank⟩
      · cases h
  · rintro ⟨rest, hread, hblank⟩
    simp only [hread, List.all_eq_true.mpr hblank, if_true]

/-- A written form is read as the term that it is written for. -/
theorem Written.parse_eq {width : Width} {source : String} {t : Term}
    (h : Written width t source.toList) : parse (.ok width) source = .ok t := by
  refine parse_eq_ok_iff.mpr ⟨[], term_eq_ok_iff.mpr ?_, nofun⟩
  exact ⟨[], source.toList, (List.append_nil _).symm, nofun, h, endsAt_of_blanks nofun⟩

/-- The reader accepts exactly the written forms. For integers of any width, a source is read as
a term if and only if it is a written form of the term with blanks before and after it. More
generally, a term is read at the front of a source, with `rest` after it, if and only if one of
its written forms stands there and ends where `rest` begins. Every other source is rejected with a
failure to read. -/
theorem parse_eq_ok_iff_written (width : Width) (source : String) :
    (∀ t, parse (.ok width) source = .ok t ↔
      ∃ before form after, source.toList = before ++ form ++ after ∧
        (∀ c ∈ before, isBlank c = true) ∧ Written width t form ∧
        ∀ c ∈ after, isBlank c = true) ∧
    (∀ t rest, term (.ok width) source.toList = .ok ⟨t, rest⟩ ↔
      ∃ before form, source.toList = before ++ form ++ rest ∧
        (∀ c ∈ before, isBlank c = true) ∧ Written width t form ∧ EndsAt t rest) ∧
    (∀ error, parse (.ok width) source = .error error → ∃ failure, error = .failure failure) := by
  refine ⟨fun t => ?_, fun t rest => term_eq_ok_iff, fun error h => exists_failure_of_parse h⟩
  rw [parse_eq_ok_iff]
  constructor
  · rintro ⟨rest, hread, hafter⟩
    obtain ⟨before, form, hsource, hbefore, hwritten, -⟩ := term_eq_ok_iff.mp hread
    exact ⟨before, form, rest, hsource, hbefore, hwritten, hafter⟩
  · rintro ⟨before, form, after, hsource, hbefore, hwritten, hafter⟩
    refine ⟨after, term_eq_ok_iff.mpr ?_, hafter⟩
    exact ⟨before, form, hsource, hbefore, hwritten, endsAt_of_blanks hafter⟩

end ScopeLisp.Grammar
