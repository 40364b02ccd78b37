import ScopeLisp.Proofs.Grammar.RoundTrip
import ScopeLisp.Proofs.Session

/-!
# Kinds of terms that a session does not leave

All that a session computes comes from its inputs: names and values are bound as written, a value
is a part of an input or was bound before, and the only new terms are the unit value and the
results of arithmetic. So a kind of terms that has these, and that has with a list the elements of
the list, is never left, whether inputs succeed or fail.

* `ClosedKind`: such a kind of terms.
* `Scopes.evaluate_keeps`: evaluation does not leave a closed kind, by induction over terms.
* `Session.run_within`: nor does a session, by induction over its inputs.
* `Session.session_terms_readable`: under one width, all that a session gives and binds is
  readable.
-/

namespace ScopeLisp

/-- A kind of terms that evaluation under the width does not leave. Under a malformed width there
is no arithmetic to speak of, and all numbers are asked for. -/
structure ClosedKind (width : WidthSetting) (kind : Term → Prop) : Prop where
  nil : kind .nil
  number : ∀ n, (∀ w, width = .ok w → w.low ≤ n ∧ n ≤ w.high) → kind (.number n)
  element : ∀ terms, kind (.list terms) → ∀ t ∈ terms, kind t

/-- Every name of the table and the value that it is bound to are of the kind. -/
def Table.Within (table : Table Term) (kind : Term → Prop) : Prop :=
  ∀ entry ∈ table, kind (.identifier entry.1) ∧ kind entry.2

theorem Table.Within.append {table : Table Term} {kind : Term → Prop} (h : table.Within kind)
    {name : String} {value : Term} (hname : kind (.identifier name)) (hvalue : kind value) :
    Table.Within (table ++ [(name, value)]) kind :=
  List.forall_mem_append.mpr ⟨h, List.forall_mem_singleton.mpr ⟨hname, hvalue⟩⟩

theorem ClosedKind.zero {width : WidthSetting} {kind : Term → Prop} (h : ClosedKind width kind) :
    kind (.number 0) :=
  h.number 0 fun w _ => Width.holds_iff.mp w.holds_zero

theorem ClosedKind.one {width : WidthSetting} {kind : Term → Prop} (h : ClosedKind width kind) :
    kind (.number 1) :=
  h.number 1 fun w _ => Width.holds_iff.mp w.holds_one

namespace Scopes

/-! ## Outcomes within a kind -/

/-- The answer is of the kind, and so is the table left behind; and only a malformed width stops
the evaluation for a setting. -/
structure Outcome.Keeps (outcome : Outcome) (width : WidthSetting) (kind : Term → Prop) : Prop where
  answer : ∀ value, outcome.answer = .ok value → kind value
  setting : ∀ e, outcome.answer = .error (.setting e) → width = .error e
  values : outcome.values.Within kind

/-- All values that the scopes bind, and their names, are of the kind. -/
def Within (scopes : List Scope) (kind : Term → Prop) : Prop :=
  ∀ scope ∈ scopes, scope.values.Within kind

variable {width : WidthSetting} {kind : Term → Prop} {near : Scope} {outer : List Scope}

theorem Within.head (h : Within (near :: outer) kind) : near.values.Within kind :=
  h near List.mem_cons_self

theorem Within.push (h : Within outer kind) {values : Table Term} (hvalues : values.Within kind) :
    Within ({ values } :: outer) kind :=
  List.forall_mem_cons.mpr ⟨hvalues, h⟩

theorem Within.rebind (h : Within (near :: outer) kind) {values : Table Term}
    (hvalues : values.Within kind) : Within ({ near with values } :: outer) kind :=
  List.forall_mem_cons.mpr ⟨hvalues, (List.forall_mem_cons.mp h).2⟩

theorem Within.findValue (h : Within (near :: outer) kind) {name : String} {value : Term}
    (hfind : findValue (near :: outer) name = some value) : kind value := by
  obtain ⟨scope, hscope, hlookup⟩ := List.exists_of_findSome?_eq_some hfind
  obtain ⟨before, after, htable, -⟩ := List.lookup_eq_some_iff.mp hlookup
  have hmem : (name, value) ∈ scope.values := htable ▸ List.mem_append_right _ List.mem_cons_self
  exact (h scope hscope _ hmem).2

namespace Outcome.Keeps

variable {values : Table Term}

theorem done {value : Term} (hvalue : kind value) (hvalues : values.Within kind) (quit : Bool) :
    Keeps ⟨.ok value, values, quit⟩ width kind where
  answer other h := Except.ok.inj h ▸ hvalue
  setting e h := by cases h
  values := hvalues

theorem stop (error : EvalError) (hvalues : values.Within kind) (quit : Bool) :
    Keeps ⟨.error (.language error), values, quit⟩ width kind where
  answer value h := by cases h
  setting e h := by cases h
  values := hvalues

theorem andThen {first : Outcome} {next : Term → Table Term → Bool → Outcome}
    (hfirst : first.Keeps width kind)
    (hnext : ∀ value, kind value → (next value first.values first.quit).Keeps width kind) :
    (first.andThen next).Keeps width kind := by
  rw [Outcome.andThen]
  cases hanswer : first.answer with
  | ok value => exact hnext value (hfirst.answer value hanswer)
  | error reason =>
    exact {
      answer := fun value h => by cases h
      setting := fun e h => hfirst.setting e (hanswer.trans h)
      values := hfirst.values }

end Outcome.Keeps

/-! ## Parts of an evaluation -/

/-- Arithmetic gives a number of the width, or stops; for a setting only if it is malformed. -/
theorem calculate_cases (width : WidthSetting) (op : Int → Int → Int) (lhs rhs : Term) :
    (∃ n, calculate width op lhs rhs = .ok (.number n) ∧
      ∀ w, width = .ok w → w.low ≤ n ∧ n ≤ w.high) ∨
    (∃ e, calculate width op lhs rhs = .error (.language e)) ∨
    ∃ e, calculate width op lhs rhs = .error (.setting e) ∧ width = .error e := by
  unfold calculate
  split
  · cases width with
    | error e => exact .inr (.inr ⟨e, rfl, rfl⟩)
    | ok width =>
      dsimp only
      split
      · rename_i a b hfits
        exact .inl ⟨op a b, rfl, fun w hw => Except.ok.inj hw ▸ hfits⟩
      · exact .inr (.inl ⟨_, rfl⟩)
  · exact .inr (.inl ⟨_, rfl⟩)

theorem extend_cases {table : Table Term} (htable : table.Within kind) {name value : Term}
    (hname : kind name) (hvalue : kind value) :
    (∃ longer, extend table name value = .ok longer ∧ longer.Within kind) ∨
    ∃ e, extend table name value = .error (.language e) := by
  cases name with
  | identifier text =>
    rw [extend]
    split
    · exact .inr ⟨_, rfl⟩
    · exact .inl ⟨_, rfl, htable.append hname hvalue⟩
  | _ => exact .inr ⟨_, rfl⟩

theorem extendAll_cases {table : Table Term} (htable : table.Within kind) {pairs : List Term}
    (hpairs : ∀ t ∈ pairs, kind t) :
    (∃ longer, extendAll table pairs = .ok longer ∧ longer.Within kind) ∨
    ∃ e, extendAll table pairs = .error (.language e) := by
  fun_induction extendAll table pairs with
  | case1 table => exact .inl ⟨table, rfl, htable⟩
  | case2 table name value rest longer hextend ih =>
    simp only [List.forall_mem_cons] at hpairs
    obtain ⟨hname, hvalue, hrest⟩ := hpairs
    rcases extend_cases htable hname hvalue with ⟨other, hother, hlonger⟩ | ⟨e, he⟩
    · cases hextend.symm.trans hother
      exact ih hlonger hrest
    · cases hextend.symm.trans he
  | case3 table name value rest stop hextend =>
    simp only [List.forall_mem_cons] at hpairs
    obtain ⟨hname, hvalue, -⟩ := hpairs
    rcases extend_cases htable hname hvalue with ⟨other, hother, -⟩ | ⟨e, he⟩
    · cases hextend.symm.trans hother
    · cases hextend.symm.trans he
      exact .inr ⟨e, rfl⟩
  | case4 => exact .inr ⟨_, rfl⟩

/-! ## The induction -/

/-- Evaluation of the term in scopes of the kind does not leave the kind. -/
def KeepsKind (width : WidthSetting) (kind : Term → Prop) (term : Term) : Prop :=
  ∀ (near : Scope) (outer : List Scope) (quit : Bool), Within (near :: outer) kind →
    (evaluate width term near outer quit).Keeps width kind

theorem accumulate_keeps (hkind : ClosedKind width kind) {terms : List Term}
    (ih : ∀ t ∈ terms, KeepsKind width kind t) (op : Int → Int → Int) {value : Term}
    (hvalue : kind value) (quit : Bool) (hscopes : Within (near :: outer) kind) :
    (accumulate width terms op value near outer quit).Keeps width kind := by
  induction terms generalizing value near quit with
  | nil =>
    rw [accumulate]
    exact .done hvalue hscopes.head quit
  | cons operand rest ihrest =>
    rw [accumulate]
    have hoperand := ih operand List.mem_cons_self near outer quit hscopes
    refine hoperand.andThen fun next hnext => ?_
    rcases calculate_cases width op value next with ⟨n, hcalc, hfits⟩ | ⟨e, hcalc⟩ |
        ⟨e, hcalc, hwidth⟩
    · rw [hcalc]
      exact ihrest (fun t ht => ih t (List.mem_cons_of_mem _ ht)) (hkind.number n hfits) _
        (hscopes.rebind hoperand.values)
    · rw [hcalc]
      exact .stop e hoperand.values _
    · rw [hcalc]
      exact {
        answer := fun value h => by cases h
        setting := fun other h => by cases h; exact hwidth
        values := hoperand.values }

theorem bind_keeps {arguments : List Term} (harguments : ∀ t ∈ arguments, kind t) {name : String}
    (hform : findForm (near :: outer) name = some .bind) (quit : Bool)
    (hscopes : Within (near :: outer) kind) :
    (evaluate width (.list (.identifier name :: arguments)) near outer quit).Keeps width kind := by
  by_cases hcount : arguments.length = 2
  · obtain ⟨bound, value, rfl⟩ := List.length_eq_two.mp hcount
    simp only [List.forall_mem_cons] at harguments
    obtain ⟨hbound, hvalue, -⟩ := harguments
    rw [evaluate_bind hform]
    rcases extend_cases hscopes.head hbound hvalue with ⟨longer, hextend, hlonger⟩ | ⟨e, hextend⟩
    · rw [hextend]
      exact .done hvalue hlonger quit
    · rw [hextend]
      exact .stop e hscopes.head quit
  · rw [evaluate_bind_miscount hform hcount]
    exact .stop _ hscopes.head quit

theorem local_keeps {arguments : List Term} (harguments : ∀ t ∈ arguments, kind t)
    (ih : ∀ t ∈ arguments, KeepsKind width kind t) {name : String}
    (hform : findForm (near :: outer) name = some .evaluate) (quit : Bool)
    (hscopes : Within (near :: outer) kind) :
    (evaluate width (.list (.identifier name :: arguments)) near outer quit).Keeps width kind := by
  cases arguments with
  | nil =>
    rw [evaluate_evaluate_nil hform]
    exact .stop _ hscopes.head quit
  | cons body pairs =>
    rw [evaluate_evaluate_cons hform]
    have hempty : Table.Within [] kind := nofun
    split
    · exact .stop _ hscopes.head quit
    · rcases extendAll_cases hempty fun t ht => harguments t (List.mem_cons_of_mem _ ht) with
        ⟨locals, hall, hlocals⟩ | ⟨e, hall⟩
      · rw [hall]
        have hbody := ih body List.mem_cons_self { values := locals } (near :: outer) quit
          (hscopes.push hlocals)
        exact { answer := hbody.answer, setting := hbody.setting, values := hscopes.head }
      · rw [hall]
        exact .stop e hscopes.head quit

theorem call_keeps (hkind : ClosedKind width kind) (name : String) {arguments : List Term}
    (harguments : ∀ t ∈ arguments, kind t) (ih : ∀ t ∈ arguments, KeepsKind width kind t) :
    KeepsKind width kind (.list (.identifier name :: arguments)) := by
  intro near outer quit hscopes
  cases hform : findForm (near :: outer) name with
  | none =>
    rw [evaluate_unbound hform]
    exact .stop _ hscopes.head quit
  | some form =>
    cases form with
    | add =>
      rw [evaluate_add hform]
      exact accumulate_keeps hkind ih _ hkind.zero quit hscopes
    | multiply =>
      rw [evaluate_multiply hform]
      exact accumulate_keeps hkind ih _ hkind.one quit hscopes
    | subtract =>
      cases arguments with
      | nil =>
        rw [evaluate_subtract_nil hform]
        exact .stop _ hscopes.head quit
      | cons first rest =>
        -- a single operand is the answer, whatever it is, so it must be of the kind itself
        rw [evaluate_subtract_cons hform]
        have hfirst := ih first List.mem_cons_self near outer quit hscopes
        refine hfirst.andThen fun value hvalue => ?_
        exact accumulate_keeps hkind (fun t ht => ih t (List.mem_cons_of_mem _ ht)) _ hvalue _
          (hscopes.rebind hfirst.values)
    | bind => exact bind_keeps harguments hform quit hscopes
    | evaluate => exact local_keeps harguments ih hform quit hscopes
    | quit =>
      cases arguments with
      | nil =>
        rw [evaluate_quit hform]
        exact .done hkind.nil hscopes.head true
      | cons first rest =>
        rw [evaluate_quit_cons hform]
        exact .stop _ hscopes.head quit
    | undefined =>
      rw [evaluate_undefined hform]
      exact .stop _ hscopes.head quit

/-- Evaluation does not leave a closed kind: by induction over terms. -/
theorem evaluate_keeps (hkind : ClosedKind width kind) {term : Term} (h : kind term) :
    KeepsKind width kind term := by
  induction term using Term.induct with
  | nil | boolean | number | string =>
    intro near outer quit hscopes
    rw [evaluate]
    exact .done h hscopes.head quit
  | foreign value =>
    intro near outer quit hscopes
    rw [evaluate]
    exact .stop _ hscopes.head quit
  | identifier name =>
    intro near outer quit hscopes
    rw [evaluate]
    cases hfind : findValue (near :: outer) name with
    | none => exact .done h hscopes.head quit
    | some value => exact .done (hscopes.findValue hfind) hscopes.head quit
  | list terms ih =>
    cases terms with
    | nil =>
      intro near outer quit hscopes
      rw [evaluate]
      exact .done hkind.nil hscopes.head quit
    | cons head arguments =>
      have hterms := hkind.element _ h
      by_cases hname : ∃ name, head = .identifier name
      · obtain ⟨name, rfl⟩ := hname
        exact call_keeps hkind name (fun t ht => hterms t (List.mem_cons_of_mem _ ht))
          fun t ht => ih t (List.mem_cons_of_mem _ ht) (hterms t (List.mem_cons_of_mem _ ht))
      · intro near outer quit hscopes
        rw [evaluate_head fun name hhead => hname ⟨name, hhead⟩]
        exact .stop _ hscopes.head quit

end Scopes

/-! ## Sessions -/

namespace Session

open Scopes Interpreter

/-- The kind is closed under the width of the input, and has the term that the input is read as. -/
structure Input.Supplies (input : Input) (kind : Term → Prop) : Prop where
  closed : ClosedKind input.width kind
  reads : ∀ term, Reader.parse input.width input.source = .ok term → kind term

variable {kind : Term → Prop} {machine : Machine}

theorem globalOutcome_keeps {width : WidthSetting} (hkind : ClosedKind width kind) {term : Term}
    (hterm : kind term) (hvalues : (globalValues machine).Within kind) :
    (globalOutcome width term machine).Keeps width kind := by
  have hscopes : Within [globalScope (globalValues machine)] kind :=
    List.forall_mem_singleton.mpr hvalues
  exact evaluate_keeps hkind hterm _ _ _ hscopes

theorem step_within {input : Input} (hinput : input.Supplies kind) (h : AtRest machine)
    (hvalues : (globalValues machine).Within kind) :
    (globalValues (step machine input)).Within kind := by
  rcases step_frames h input with hframes | ⟨term, hparse, hframes⟩
  · rw [globalValues_of_frames_eq (hframes.trans h.frames_eq)]
    exact hvalues
  · rw [globalValues_of_frames_eq hframes]
    exact (globalOutcome_keeps hinput.closed (hinput.reads term hparse) hvalues).values

theorem run_within {inputs : List Input} (hinputs : ∀ input ∈ inputs, input.Supplies kind)
    (h : AtRest machine) (hvalues : (globalValues machine).Within kind) :
    (globalValues (run inputs machine)).Within kind := by
  induction inputs generalizing machine with
  | nil => exact hvalues
  | cons input rest ih =>
    rw [List.forall_mem_cons] at hinputs
    exact ih hinputs.2 (atRest_step h input) (step_within hinputs.1 h hvalues)

/-- All that a fresh session binds stays of the kind. -/
theorem run_start_within {inputs : List Input}
    (hinputs : ∀ input ∈ inputs, input.Supplies kind) :
    (globalValues (run inputs start)).Within kind := by
  have hnone : globalValues start = [] := rfl
  exact run_within hinputs atRest_start (hnone ▸ nofun)

theorem eval_of_kind {width : WidthSetting} {source : String}
    (hinput : (Input.eval width source).Supplies kind) (h : AtRest machine)
    (hvalues : (globalValues machine).Within kind) {value : Term} {after : Machine}
    (heval : Interpreter.eval width source machine = .ok value after) : kind value := by
  rcases eval_cases width source h with ⟨e, -, hrun⟩ | ⟨failure, _, -, hrun, -⟩ |
      ⟨term, ending, hparse, hrun, -⟩
  · cases hrun.symm.trans heval
  · cases hrun.symm.trans heval
  · have hkeeps := globalOutcome_keeps hinput.closed (hinput.reads term hparse) hvalues
    rw [hrun, inputResult] at heval
    split at heval
    · rename_i given hanswer
      cases heval
      exact hkeeps.answer value hanswer
    · cases heval

end Session

/-! ## Readable terms -/

namespace Grammar

theorem closedKind_readable (width : Width) : ClosedKind (.ok width) (Readable width) where
  nil := .nil
  number n h := .number (h width rfl)
  element terms h := by
    cases h with
    | list hterms => exact hterms

/-- The reader gives the name, under the width, for some source. -/
def IsRead (width : Width) (name : String) : Prop :=
  ∃ source, Reader.parse (.ok width) source = .ok (.identifier name)

theorem isRead_iff_isName {width : Width} {name : String} : IsRead width name ↔ IsName name := by
  constructor
  · rintro ⟨source, hparse⟩
    cases readable_of_parse hparse with
    | identifier hname => exact hname
  · intro hname
    have hreadable : Readable width (.identifier name) := .identifier hname
    exact ⟨_, hreadable.parse_write⟩

end Grammar

namespace Session

open Interpreter Grammar

theorem supplies_readable {width : Width} {input : Input} (h : input.width = .ok width) :
    input.Supplies (Readable width) where
  closed := h ▸ closedKind_readable width
  reads _ hparse := readable_of_parse (h ▸ hparse)

/-- Under one width of `b` bits, whatever inputs a fresh session was given and whether they
succeeded or failed: all values in the global frame, and the value of the next input if it has one,
hold only numbers from `-2^(b-1)` to `2^(b-1) - 1` and only names that the reader gives for some
source; and every bound name is such a name. -/
theorem session_terms_readable (width : Width) (inputs : List Input)
    (hwidth : ∀ input ∈ inputs, input.width = .ok width) :
    let bound : Int := Nat.pow 2 (width.bits - 1)
    let kind := Term.Only (fun n => -bound ≤ n ∧ n ≤ bound - 1) (IsRead width)
    (∀ name value, (name, value) ∈ globalValues (run inputs start) →
      IsRead width name ∧ kind value) ∧
    ∀ source value after,
      Interpreter.eval (.ok width) source (run inputs start) = .ok value after → kind value := by
  have hnames : IsRead width = IsName := funext fun name => propext isRead_iff_isName
  rw [hnames]
  have hvalues : (globalValues (run inputs start)).Within (Readable width) :=
    run_start_within fun input hinput => supplies_readable (hwidth input hinput)
  refine ⟨fun name value hmem => ?_, fun source value after heval => ?_⟩
  · obtain ⟨hname, hvalue⟩ := hvalues _ hmem
    cases hname with
    | identifier hname => exact ⟨hname, hvalue⟩
  · exact eval_of_kind (supplies_readable rfl) (atRest_run atRest_start inputs) hvalues heval

/-- The binding of `b` to the least number of two bits, given twice: the second time fails. -/
theorem session_binds_least :
    let width : Width := ⟨2, by decide⟩
    let source := Term.write (.list [.identifier "let", .identifier "b", .number (-2)])
    let inputs : List Input := [.eval (.ok width) source, .respond (.ok width) source]
    globalValues (run inputs start) = [("b", .number (-2))] ∧ IsRead width "b" ∧
      Term.Only (fun n => -2 ≤ n ∧ n ≤ 1) (IsRead width) (.number (-2)) := by
  intro width source inputs
  have hname : ∀ name ∈ ["let", "b"], IsName name := by
    intro name hmem
    simp only [List.mem_cons, List.not_mem_nil, or_false] at hmem
    rcases hmem with rfl | rfl
    · exact ⟨.intro rfl (List.all_eq_true.mp rfl) (by decide), by decide⟩
    · exact ⟨.intro rfl (List.all_eq_true.mp rfl) (by decide), by decide⟩
  have hreadable : Readable width
      (.list [.identifier "let", .identifier "b", .number (-2)]) := by
    refine .list fun element helement => ?_
    simp only [List.mem_cons, List.not_mem_nil, or_false] at helement
    rcases helement with rfl | rfl | rfl
    · exact .identifier (hname _ (by decide))
    · exact .identifier (hname _ (by decide))
    · exact .number (by decide)
  have hparse : Reader.parse (.ok width) source
    = .ok (.list [.identifier "let", .identifier "b", .number (-2)]) := hreadable.parse_write
  have hvalues : globalValues (run inputs start) = [("b", .number (-2))] := by
    simp only [inputs, run, List.foldl_cons, List.foldl_nil, step, Interpreter.respond,
      Interpreter.eval, bind, EStateM.bind, Interpreter.read, hparse]
    rfl
  have hwidth : ∀ input ∈ inputs, input.width = .ok width := by
    simp only [inputs, List.forall_mem_cons]
    exact ⟨rfl, rfl, List.forall_mem_nil _⟩
  exact ⟨hvalues, (session_terms_readable width inputs hwidth).1 _ _ (hvalues ▸ List.mem_cons_self)⟩

end Session

end ScopeLisp
