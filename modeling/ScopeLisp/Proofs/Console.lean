import ScopeLisp.Console
import ScopeLisp.Proofs.Grammar.Rejection
import ScopeLisp.Proofs.Safety

/-!
# The console is a fold of the interpreter over its lines

The console answers the lines that it reads one after the other, with two differences from an
interpreter that is given these lines: it skips the lines of white space, and it stops as soon as
the session was asked to end. Skipping a line loses nothing. The console and the reader do not
agree on what white space is, but all that is white space for the one begins no term for the
other, so the interpreter would say that it cannot read the line, and leave everything as it is.
It would write an entry into its log, though, so the machine of the console and that of the
interpreter are not equal, but they cannot be told apart by later lines (`Indistinct`).

The console stops for a third reason, too: at the first line that has no answer, because its value
holds a number with too many digits to be written. The line has been evaluated by then, and the
lines after it are never read.

* `Grammar.parse_of_isBlankLine`: a line of white space cannot be read.
* `Session.Indistinct.respond`: what a line is answered does not depend on the log.
* `converse_folds`: a conversation follows the answers of the interpreter line by line.
* `console_folds_interpreter`: the same for the console as a whole, over all lines.
-/

namespace ScopeLisp

/-! ## Lines of white space -/

namespace Text

theorem isBlankLine_iff {line : String} : isBlankLine line = true ↔ strip line.toList = [] := by
  rw [isBlankLine, List.all_eq_true, strip_eq_nil_iff]

end Text

namespace Grammar

open Reader

theorem between_of_isAlpha {c : Char} (h : isAlpha c = true) :
    65 ≤ c.toNat ∧ c.toNat ≤ 122 := by
  rw [isAlpha, Bool.or_eq_true, Bool.and_eq_true, Bool.and_eq_true] at h
  simp only [decide_eq_true_eq, Char.le_def, UInt32.le_iff_toNat_le] at h
  simp only [Char.toNat]
  rcases h with ⟨hlow, hhigh⟩ | ⟨hlow, hhigh⟩
  · have hlow : 97 ≤ c.val.toNat := hlow
    have hhigh : c.val.toNat ≤ 122 := hhigh
    omega
  · have hlow : 65 ≤ c.val.toNat := hlow
    have hhigh : c.val.toNat ≤ 90 := hhigh
    omega

/-- White space of any kind stands neither in names nor in numbers. -/
theorem isNameChar_of_textBlank {c : Char} (h : Text.isBlank c = true) : isNameChar c = false := by
  have halpha : isAlpha c = false := by
    refine Bool.eq_false_iff.mpr fun halpha => ?_
    have hbetween := between_of_isAlpha halpha
    simp only [Text.isBlank, Bool.or_eq_true, Bool.and_eq_true, decide_eq_true_eq,
      beq_iff_eq] at h
    omega
  have hlisted : c ∉ nameSymbols ++ digits := by
    have hnone : (nameSymbols ++ digits).any Text.isBlank = false := rfl
    exact fun hlisted => List.any_eq_false.mp hnone c hlisted h
  rw [List.mem_append, not_or, ← List.contains_iff_mem, ← List.contains_iff_mem,
    Bool.not_eq_true, Bool.not_eq_true] at hlisted
  simp only [isNameChar, isNameStart, isDigit, halpha, hlisted, Bool.or_self]

theorem beginsNothing_of_textBlank {text : List Char} (h : ∀ c ∈ text, Text.isBlank c = true) :
    BeginsNothing text := by
  cases text with
  | nil => exact .empty
  | cons c rest =>
    have hc := h c List.mem_cons_self
    have hname := isNameChar_of_textBlank hc
    rw [isNameChar, Bool.or_eq_false_iff] at hname
    refine .other (fun hmark => ?_) hname.2 hname.1
    simp only [List.mem_cons, List.not_mem_nil, or_false] at hmark
    rcases hmark with rfl | rfl | rfl <;> cases hc

theorem parse_of_isBlankLine (width : Width) {line : String}
    (h : Text.isBlankLine line = true) :
    parse (.ok width) line
      = .error (.failure { cause := .noAlternative, rest := some line.toList }) := by
  rw [parse_eq_term_failure_iff (by simp)]
  refine term_eq_noAlternative_iff.mpr (beginsNothing_of_textBlank fun c hc => ?_)
  exact List.all_eq_true.mp h c ((List.dropWhile_suffix isBlank).mem hc)

end Grammar

/-! ## Machines that lines cannot tell apart -/

namespace Session

open Interpreter

/-- The machines have the same frames and the same wish to quit. -/
structure Indistinct (first second : Machine) : Prop where
  frames_eq : first.arena.frames = second.arena.frames
  quit_eq : first.quit = second.quit

/-- The text that answers an input is that of its value or its error. -/
theorem answer_respond_congr {width : WidthSetting} {source : String} {first second : Machine}
    (h : answer (Interpreter.eval width source first)
      = answer (Interpreter.eval width source second)) :
    answer (Interpreter.respond width source first)
      = answer (Interpreter.respond width source second) := by
  rw [Interpreter.respond, Interpreter.respond]
  cases hfirst : Interpreter.eval width source first with
  | ok term after =>
    cases hsecond : Interpreter.eval width source second with
    | ok term' after' =>
      rw [hfirst, hsecond] at h
      cases h
      dsimp only
      cases term.render <;> rfl
    | error obstacle' after' =>
      rw [hfirst, hsecond] at h
      cases h
  | error obstacle after =>
    cases hsecond : Interpreter.eval width source second with
    | ok term' after' =>
      rw [hfirst, hsecond] at h
      cases h
    | error obstacle' after' =>
      rw [hfirst, hsecond] at h
      cases h
      cases obstacle with
      | unreadable failure => rfl
      | fault fault => cases fault <;> rfl

namespace Indistinct

variable {first second third : Machine}

theorem trans (h : Indistinct first second) (h' : Indistinct second third) :
    Indistinct first third :=
  ⟨h.frames_eq.trans h'.frames_eq, h.quit_eq.trans h'.quit_eq⟩

theorem atRest (h : Indistinct first second) (hrest : AtRest second) : AtRest first :=
  ⟨_, h.frames_eq.trans hrest.frames_eq⟩

theorem globalOutcome_eq (h : Indistinct first second) (hrest : AtRest second)
    (width : WidthSetting) (term : Term) :
    globalOutcome width term first = globalOutcome width term second := by
  have hvalues : globalValues first = globalValues second :=
    globalValues_of_frames_eq (h.frames_eq.trans hrest.frames_eq)
  rw [globalOutcome, globalOutcome, hvalues, h.quit_eq]

/-- An input has the same value or the same error in both machines, and leaves them alike. -/
theorem eval (h : Indistinct first second) (hrest : AtRest second) (width : WidthSetting)
    (source : String) :
    answer (Interpreter.eval width source first) = answer (Interpreter.eval width source second) ∧
      Indistinct (ending (Interpreter.eval width source first))
        (ending (Interpreter.eval width source second)) := by
  rcases eval_cases width source (h.atRest hrest) with
    ⟨e, hparse, hrun⟩ | ⟨failure, after, hparse, hrun, hquit, harena⟩ |
    ⟨term, after, hparse, hrun, hquit, hframes⟩
  all_goals
    rcases eval_cases width source hrest with
      ⟨e', hparse', hrun'⟩ | ⟨failure', after', hparse', hrun', hquit', harena'⟩ |
      ⟨term', after', hparse', hrun', hquit', hframes'⟩
  all_goals cases hparse.symm.trans hparse'
  all_goals rw [hrun, hrun']
  · exact ⟨rfl, h⟩
  · refine ⟨rfl, ?_, ?_⟩
    · rw [ending, ending, harena, harena', h.frames_eq]
    · rw [ending, ending, hquit, hquit', h.quit_eq]
  · rw [h.globalOutcome_eq hrest] at hquit hframes ⊢
    refine ⟨?_, ?_, ?_⟩
    · rw [inputResult, inputResult]
      cases (globalOutcome width term second).answer <;> rfl
    · rw [ending_inputResult, ending_inputResult, hframes, hframes']
    · rw [ending_inputResult, ending_inputResult, hquit, hquit']

/-- An input is answered by the same text in both machines, and leaves them alike. -/
theorem respond (h : Indistinct first second) (hrest : AtRest second) (width : WidthSetting)
    (source : String) :
    answer (Interpreter.respond width source first)
        = answer (Interpreter.respond width source second) ∧
      Indistinct (ending (Interpreter.respond width source first))
        (ending (Interpreter.respond width source second)) := by
  obtain ⟨hanswer, hending⟩ := h.eval hrest width source
  obtain ⟨harena, hquit⟩ := ending_respond width source first
  obtain ⟨harena', hquit'⟩ := ending_respond width source second
  refine ⟨answer_respond_congr hanswer, ?_, ?_⟩
  · rw [harena, harena', hending.frames_eq]
  · rw [hquit, hquit', hending.quit_eq]

end Indistinct

theorem isBlankLine_of_hasLongValue {width : Width} {line : String} {machine : Machine}
    (h : HasLongValue (.ok width) line machine) : Text.isBlankLine line = false := by
  obtain ⟨value, after, hvalue, -⟩ := h
  cases hblank : Text.isBlankLine line with
  | false => rfl
  | true =>
    simp only [Interpreter.eval, bind, EStateM.bind, Interpreter.read,
      Grammar.parse_of_isBlankLine width hblank] at hvalue
    cases hvalue

variable (width : Width) (inputs : List Input)

/-- A line of a session is one more input of the session, whether it is answered or has a value
that is too long. -/
theorem respond_run (line : String) :
    (∃ text, Interpreter.respond (.ok width) line (run inputs start)
      = .ok text (run (inputs ++ [.respond (.ok width) line]) start)) ∨
    Interpreter.respond (.ok width) line (run inputs start)
        = .error (.misuse .overlong) (run (inputs ++ [.respond (.ok width) line]) start) ∧
      HasLongValue (.ok width) line (run inputs start) := by
  have hrest : AtRest (run inputs start) := atRest_run atRest_start inputs
  have hproper : (globalValues (run inputs start)).Within fun t => t.isProper = true :=
    run_start_within fun input _ => supplies_isProper input
  have hstep : run (inputs ++ [.respond (.ok width) line]) start
      = ending (Interpreter.respond (.ok width) line (run inputs start)) := run_append ..
  rcases respond_cases hrest hproper width line with ⟨text, after, hrespond, -⟩ |
      ⟨after, hrespond, hlong⟩
  · rw [hstep, hrespond]
    exact .inl ⟨text, rfl⟩
  · rw [hstep, hrespond]
    exact .inr ⟨rfl, hlong⟩

/-- A line of white space leaves the session as it is, but for the log. -/
theorem indistinct_of_isBlankLine {line : String} (h : Text.isBlankLine line = true) :
    Indistinct (run inputs start) (run (inputs ++ [.respond (.ok width) line]) start) := by
  have hrest : AtRest (run inputs start) := atRest_run atRest_start inputs
  have hblank := Grammar.parse_of_isBlankLine width h
  obtain ⟨harena, hquit⟩ := ending_respond (.ok width) line (run inputs start)
  have hstep : run (inputs ++ [.respond (.ok width) line]) start
      = ending (Interpreter.respond (.ok width) line (run inputs start)) := run_append ..
  rcases eval_cases (.ok width) line hrest with ⟨e, hparse, -⟩ |
      ⟨failure, after, -, hrun, hquit', harena'⟩ | ⟨term, after, hparse, -⟩
  · cases hblank.symm.trans hparse
  · rw [hrun] at harena hquit
    refine ⟨?_, ?_⟩
    · rw [hstep, harena, ending, harena']
    · rw [hstep, hquit, ending, hquit']
  · cases hblank.symm.trans hparse

end Session

/-! ## Conversations -/

namespace Console

open Interpreter

/-- What a user sees of a line and the answer to it: the prompt, and the answer unless the line is
white space. -/
def exchange (prompt : String) (entry : String × String) : List Event :=
  .prompted prompt :: if Text.strip entry.1.toList = [] then [] else [.wrote entry.2]

/-- What is written and prompted for some lines, and prompted once more or not. -/
theorem written_prompts_of_events {transcript : Transcript} {prompt : String}
    {entries : List (String × String)} {more : Nat}
    (h : transcript.events
      = entries.flatMap (exchange prompt) ++ List.replicate more (.prompted prompt)) :
    transcript.written
        = (entries.filter fun entry => Text.strip entry.1.toList ≠ []).map Prod.snd ∧
      transcript.prompts = List.replicate (entries.length + more) prompt := by
  rw [Transcript.written, Transcript.prompts, h]
  clear h
  induction entries with
  | nil =>
    rw [List.flatMap_nil, List.nil_append, List.filterMap_replicate, List.filterMap_replicate]
    exact ⟨rfl, congrArg (List.replicate · prompt) (Nat.zero_add more).symm⟩
  | cons entry entries ih =>
    obtain ⟨hwritten, hprompts⟩ := ih
    have hlength : (entry :: entries).length + more = (entries.length + more) + 1 := by
      rw [List.length_cons]
      omega
    rw [List.flatMap_cons, List.append_assoc, List.filterMap_append, hwritten,
      List.filterMap_append, hprompts, hlength, List.replicate_succ, exchange]
    by_cases hblank : Text.strip entry.1.toList = []
    · rw [if_pos hblank, List.filter_cons_of_neg (by simpa using hblank)]
      exact ⟨rfl, rfl⟩
    · rw [if_neg hblank, List.filter_cons_of_pos (by simpa using hblank)]
      exact ⟨rfl, rfl⟩

/-- The transcript is that of a console which takes its answers from the interpreter: started in
the machine, the interpreter is given the lines that the console has read, answers them by the
texts, and ends in the machine `last`. -/
structure Follows (width : WidthSetting) (prompt : String) (lines : List String)
    (machine : Machine) (transcript : Transcript) (read unread texts : List String)
    (last : Machine) : Prop where
  /-- The lines that were read come first. -/
  lines_eq : lines = read ++ unread
  /-- None of them is read once the session was asked to end, nor after a line without an answer. -/
  asked : ∀ earlier line later, read = earlier ++ line :: later →
    ∃ replies after, earlier.mapM (respond width) machine = .ok replies after ∧ after.quit = false
  /-- Either all lines that were read are answered, those of white space included, and the session
  was asked to end or there are no more lines; or all but the last one are answered, and the value
  of the last one is too long. -/
  stopped :
    transcript.stop = .quit ∧ read.mapM (respond width) machine = .ok texts last ∧
      last.quit = true ∨
    transcript.stop = .endOfInput ∧ read.mapM (respond width) machine = .ok texts last ∧
      last.quit = false ∧ unread = [] ∨
    transcript.stop = .failed (.misuse .overlong) ∧ ∃ answered line final,
      read = answered ++ [line] ∧ answered.mapM (respond width) machine = .ok texts final ∧
      Session.HasLongValue width line final ∧
      respond width line final = .error (.misuse .overlong) last
  length_eq : read.length
    = texts.length + if transcript.stop = .failed (.misuse .overlong) then 1 else 0
  /-- There is a prompt before every line and before the end of the input. -/
  events : transcript.events = (read.zip texts).flatMap (exchange prompt) ++
    if transcript.stop = .quit then [] else [.prompted prompt]
  /-- The console leaves what the interpreter leaves. -/
  indistinct : Session.Indistinct transcript.machine last

section Follows

variable {width : WidthSetting} {prompt : String} {lines : List String} {machine : Machine}
  {transcript : Transcript} {read unread texts : List String} {last : Machine}

/-- A console that stops at once reads nothing. -/
theorem follows_of_stopped (h : Session.Indistinct transcript.machine machine)
    (hstopped : transcript.stop = .quit ∧ machine.quit = true ∨
      transcript.stop = .endOfInput ∧ machine.quit = false ∧ lines = [])
    (hevents : transcript.events = if transcript.stop = .quit then [] else [.prompted prompt]) :
    Follows width prompt lines machine transcript [] lines [] machine where
  lines_eq := rfl
  asked _ _ _ hread :=
    absurd hread.symm (List.append_ne_nil_of_right_ne_nil _ (List.cons_ne_nil _ _))
  stopped := by
    rcases hstopped with ⟨hstop, hquit⟩ | ⟨hstop, hquit, hlines⟩
    · exact .inl ⟨hstop, rfl, hquit⟩
    · exact .inr (.inl ⟨hstop, rfl, hquit, hlines⟩)
  length_eq := by
    rcases hstopped with ⟨hstop, -⟩ | ⟨hstop, -⟩
    · rw [hstop]
      rfl
    · rw [hstop]
      rfl
  events := hevents
  indistinct := h

/-- A console that finds no answer to its first line stops there. -/
theorem follows_of_failed {line : String} {after : Machine} (hquit : machine.quit = false)
    (hlong : Session.HasLongValue width line machine)
    (hline : respond width line machine = .error (.misuse .overlong) last)
    (h : Session.Indistinct after last) :
    Follows width prompt (line :: lines) machine
      ⟨[.prompted prompt], after, .failed (.misuse .overlong)⟩ [line] lines [] last where
  lines_eq := rfl
  asked earlier other later hread := by
    cases earlier with
    | nil => exact ⟨[], machine, rfl, hquit⟩
    | cons first earlier =>
      rw [List.cons_append] at hread
      exact absurd (List.cons.inj hread).2.symm
        (List.append_ne_nil_of_right_ne_nil _ (List.cons_ne_nil _ _))
  stopped := .inr (.inr ⟨rfl, [], line, machine, rfl, rfl, hlong, hline⟩)
  length_eq := rfl
  events := rfl
  indistinct := h

/-- What the console writes for a line. -/
def written? (line text : String) : Option String :=
  if Text.strip line.toList = [] then none else some text

theorem exchange_eq (prompt line text : String) :
    exchange prompt (line, text)
      = .prompted prompt :: ((written? line text).map Event.wrote).toList := by
  rw [exchange, written?]
  dsimp only
  split <;> rfl

theorem mapM_respond_cons {line text : String} {rest replies : List String} {next after : Machine}
    (hline : respond width line machine = .ok text next)
    (hrest : rest.mapM (respond width) next = .ok replies after) :
    (line :: rest).mapM (respond width) machine = .ok (text :: replies) after := by
  rw [List.mapM_cons, Evaluation.bind_of_ok hline, Evaluation.bind_of_ok hrest]
  rfl

/-- A line that is answered goes before what follows it. -/
theorem Follows.cons {line text : String} {next : Machine} (hquit : machine.quit = false)
    (hline : respond width line machine = .ok text next)
    (h : Follows width prompt lines next transcript read unread texts last) :
    Follows width prompt (line :: lines) machine
      { transcript with
        events := .prompted prompt :: ((written? line text).map Event.wrote).toList
          ++ transcript.events }
      (line :: read) unread (text :: texts) last where
  lines_eq := by rw [h.lines_eq, List.cons_append]
  asked earlier other later hread := by
    cases earlier with
    | nil => exact ⟨[], machine, rfl, hquit⟩
    | cons first earlier =>
      rw [List.cons_append] at hread
      obtain ⟨rfl, hlater⟩ := List.cons.inj hread
      obtain ⟨replies, after, hreplies, hafter⟩ := h.asked earlier other later hlater
      exact ⟨_, after, mapM_respond_cons hline hreplies, hafter⟩
  stopped := by
    rcases h.stopped with ⟨hstop, hread, hlast⟩ | ⟨hstop, hread, hlast⟩ |
      ⟨hstop, answered, failing, final, rfl, hanswered, hfails⟩
    · exact .inl ⟨hstop, mapM_respond_cons hline hread, hlast⟩
    · exact .inr (.inl ⟨hstop, mapM_respond_cons hline hread, hlast⟩)
    · exact .inr (.inr ⟨hstop, line :: answered, failing, final, List.cons_append,
        mapM_respond_cons hline hanswered, hfails⟩)
  length_eq := by
    rw [List.length_cons, List.length_cons, h.length_eq]
    exact Nat.add_right_comm ..
  events := by
    rw [List.zip_cons_cons, List.flatMap_cons, exchange_eq, List.append_assoc, h.events]
  indistinct := h.indistinct

/-- A console that finds no answer to its first line reads this line only. -/
theorem Follows.of_unanswered {line : String} {fault : Fault} {after : Machine}
    (h : Follows width prompt (line :: lines) machine transcript read unread texts last)
    (hquit : machine.quit = false) (hline : respond width line machine = .error fault after) :
    transcript.stop = .failed (.misuse .overlong) ∧ read = [line] ∧ texts = [] := by
  have hnone : ∀ {given : List String} {replies : List String} {final : Machine},
      given.mapM (respond width) machine = .ok replies final → given <+: line :: lines →
      given = [] := by
    intro given replies final hgiven hfirst
    cases given with
    | nil => rfl
    | cons first rest =>
      rw [(List.cons_prefix_cons.mp hfirst).1, List.mapM_cons,
        Evaluation.bind_of_error hline] at hgiven
      cases hgiven
  have hread : read <+: line :: lines := ⟨unread, h.lines_eq.symm⟩
  rcases h.stopped with ⟨-, hanswered, hlast⟩ | ⟨-, hanswered, -, hunread⟩ |
    ⟨hstop, answered, failing, final, hfailing, hanswered, -⟩
  · rw [hnone hanswered hread] at hanswered
    cases hanswered
    cases hlast.symm.trans hquit
  · have hlines := h.lines_eq
    rw [hunread, hnone hanswered hread] at hlines
    cases hlines
  · have hempty := hnone hanswered ((List.prefix_append ..).trans (hfailing ▸ hread))
    rw [hempty] at hfailing hanswered
    cases hanswered
    rw [hfailing] at hread
    exact ⟨hstop, by rw [hfailing, (List.cons_prefix_cons.mp hread).1]; rfl, rfl⟩

/-- The lines that an interpreter has answered are inputs of its session. -/
theorem run_of_answered (h : read.mapM (respond width) machine = .ok texts last) :
    last = Session.run (read.map (.respond width)) machine := by
  induction read generalizing machine texts with
  | nil =>
    cases h
    rfl
  | cons line rest ih =>
    rw [List.mapM_cons] at h
    cases hline : respond width line machine with
    | error fault after =>
      rw [Evaluation.bind_of_error hline] at h
      cases h
    | ok text next =>
      rw [Evaluation.bind_of_ok hline] at h
      cases hrest : rest.mapM (respond width) next with
      | error fault after =>
        rw [Evaluation.bind_of_error hrest] at h
        cases h
      | ok replies after =>
        rw [Evaluation.bind_of_ok hrest] at h
        cases h
        rw [List.map_cons, Session.run, List.foldl_cons, Session.step, hline]
        exact ih hrest

end Follows

/-- The console answers a line as the interpreter does, or passes over a line of white space, or
finds no answer as the interpreter finds none. -/
theorem answer_run (width : Width) (line : String) (inputs : List Session.Input)
    {machine : Machine} (h : Session.Indistinct machine (Session.run inputs start)) :
    (∃ text after, respond (.ok width) line (Session.run inputs start)
        = .ok text (Session.run (inputs ++ [.respond (.ok width) line]) start) ∧
      answer (.ok width) line machine = .ok (written? line text) after ∧
      Session.Indistinct after (Session.run (inputs ++ [.respond (.ok width) line]) start)) ∨
    ∃ after, respond (.ok width) line (Session.run inputs start) = .error (.misuse .overlong)
        (Session.run (inputs ++ [.respond (.ok width) line]) start) ∧
      Session.HasLongValue (.ok width) line (Session.run inputs start) ∧
      answer (.ok width) line machine = .error (.misuse .overlong) after ∧
      Session.Indistinct after (Session.run (inputs ++ [.respond (.ok width) line]) start) := by
  have hrest := Session.atRest_run Session.atRest_start inputs
  obtain ⟨hanswer, hending⟩ := h.respond hrest (.ok width) line
  have hask : Text.isBlankLine line = false →
      answer (.ok width) line machine
        = (do return some (← respond (.ok width) line) : Eval (Option String)) machine := by
    intro hblank
    rw [answer, if_neg (by rw [hblank]; exact Bool.false_ne_true)]
  rcases Session.respond_run width inputs line with ⟨text, hrespond⟩ | ⟨hrespond, hlong⟩
  · refine .inl ⟨text, ?_⟩
    cases hblank : Text.isBlankLine line with
    | true =>
      refine ⟨machine, hrespond, ?_,
        h.trans (Session.indistinct_of_isBlankLine width inputs hblank)⟩
      rw [answer, if_pos hblank, written?, if_pos (Text.isBlankLine_iff.mp hblank)]
      rfl
    | false =>
      have hsome : Text.strip line.toList ≠ [] := fun hnil => by
        rw [Text.isBlankLine_iff.mpr hnil] at hblank
        cases hblank
      rw [hrespond] at hanswer hending
      cases hactual : respond (.ok width) line machine with
      | error fault after =>
        rw [hactual] at hanswer
        cases hanswer
      | ok other after =>
        rw [hactual] at hanswer hending
        cases hanswer
        refine ⟨after, hrespond, ?_, hending⟩
        rw [hask hblank, Evaluation.bind_of_ok hactual, written?, if_neg hsome]
        rfl
  · rw [hrespond] at hanswer hending
    cases hactual : respond (.ok width) line machine with
    | ok other after =>
      rw [hactual] at hanswer
      cases hanswer
    | error fault after =>
      rw [hactual] at hanswer hending
      cases hanswer
      refine .inr ⟨after, hrespond, hlong, ?_, hending⟩
      rw [hask (Session.isBlankLine_of_hasLongValue hlong), Evaluation.bind_of_error hactual]

/-- The console follows the interpreter from any session on, in a machine that lines cannot tell
from that of the session. Unless it stops at the end of the input, it does so whatever lines would
have come next. -/
theorem converse_folds (width : Width) (prompt : String) (lines : List String)
    (inputs : List Session.Input) {machine : Machine}
    (h : Session.Indistinct machine (Session.run inputs start)) :
    ∃ read unread texts last,
      Follows (.ok width) prompt lines (Session.run inputs start)
        (converse (.ok width) prompt .endOfInput lines machine) read unread texts last ∧
      ((converse (.ok width) prompt .endOfInput lines machine).stop ≠ .endOfInput →
        ∀ ending others, converse (.ok width) prompt ending (read ++ others) machine
          = converse (.ok width) prompt .endOfInput lines machine) := by
  induction lines generalizing inputs machine with
  | nil =>
    cases hquit : machine.quit with
    | true =>
      rw [converse_of_quit _ _ _ _ hquit]
      refine ⟨[], [], [], _, follows_of_stopped h (.inl ⟨rfl, h.quit_eq.symm.trans hquit⟩) rfl,
        fun _ ending others => converse_of_quit _ _ _ _ hquit⟩
    | false =>
      rw [converse, if_neg (by rw [hquit]; exact Bool.false_ne_true)]
      refine ⟨[], [], [], _,
        follows_of_stopped h (.inr ⟨rfl, h.quit_eq.symm.trans hquit, rfl⟩) rfl, fun hstop => ?_⟩
      exact absurd rfl hstop
  | cons line rest ih =>
    cases hquit : machine.quit with
    | true =>
      rw [converse_of_quit _ _ _ _ hquit]
      refine ⟨[], _, [], _, follows_of_stopped h (.inl ⟨rfl, h.quit_eq.symm.trans hquit⟩) rfl,
        fun _ ending others => converse_of_quit _ _ _ _ hquit⟩
    | false =>
      have hask : ¬ machine.quit = true := by
        rw [hquit]
        exact Bool.false_ne_true
      have hquit' : (Session.run inputs start).quit = false := h.quit_eq.symm.trans hquit
      rcases answer_run width line inputs h with ⟨text, after, hrespond, hanswer, hafter⟩ |
        ⟨after, hrespond, hlong, hanswer, hafter⟩
      · obtain ⟨read, unread, texts, last, hfollows, hstops⟩ := ih _ hafter
        have hconverse : ∀ ending lines,
            converse (.ok width) prompt ending (line :: lines) machine
              = { converse (.ok width) prompt ending lines after with
                  events := .prompted prompt :: ((written? line text).map Event.wrote).toList ++
                    (converse (.ok width) prompt ending lines after).events } := by
          intro ending lines
          rw [converse, if_neg hask, hanswer]
        rw [hconverse]
        refine ⟨line :: read, unread, text :: texts, last, hfollows.cons hquit' hrespond,
          fun hstop ending others => ?_⟩
        rw [List.cons_append, hconverse, hstops hstop]
      · have hconverse : ∀ ending lines,
            converse (.ok width) prompt ending (line :: lines) machine
              = ⟨[.prompted prompt], after, .failed (.misuse .overlong)⟩ := by
          intro ending lines
          rw [converse, if_neg hask, hanswer]
        rw [hconverse]
        exact ⟨[line], rest, [], _, follows_of_failed hquit' hlong hrespond hafter,
          fun _ ending others => hconverse ending others⟩

/-! ## The console -/

/-- The console adds to a conversation that it is logged, and nothing else. -/
theorem run_eq_converse (width : WidthSetting) (prompt : String) (ending : Ending)
    (lines : List String) (machine : Machine) :
    ∃ after, run width prompt ending lines machine
        = { converse width prompt ending lines (logStart machine) with machine := after } ∧
      Session.Indistinct after (converse width prompt ending lines (logStart machine)).machine := by
  rw [run]
  obtain ⟨events, after, stop⟩ := converse width prompt ending lines (logStart machine)
  cases stop with
  | quit | endOfInput | interrupted | failed => exact ⟨_, rfl, rfl, rfl⟩

/-- Under widths that are small enough, no line is without an answer. -/
theorem Follows.stop_ne_failed {width : Width} {prompt : String} {lines : List String}
    {inputs : List Session.Input} {transcript : Transcript} {read unread texts : List String}
    {last : Machine}
    (h : Follows (.ok width) prompt lines (Session.run inputs start) transcript read unread texts
      last)
    (hbits : width.bits ≤ Session.writableBits)
    (hinputs : ∀ input ∈ inputs, ∃ w, input.width = .ok w ∧ w.bits ≤ Session.writableBits) :
    transcript.stop ≠ .failed (.misuse .overlong) := by
  intro hstop
  rcases h.stopped with ⟨hquit, -⟩ | ⟨hend, -⟩ |
    ⟨-, answered, line, final, -, hanswered, hlong, -⟩
  · cases hstop.symm.trans hquit
  · cases hstop.symm.trans hend
  · rw [run_of_answered hanswered, ← Session.run_append] at hlong
    refine Session.not_hasLongValue hbits (List.forall_mem_append.mpr ⟨hinputs, ?_⟩) line hlong
    exact List.forall_mem_map.mpr fun _ _ => ⟨width, rfl, hbits⟩

/-- The console is the fold of the interpreter over its lines, in every session, under every
well-formed width, with every prompt and for all lines. It reads lines up to and including the
first one after which the session was asked to end, or the first one whose value holds a number with
too many digits to be written, or all of them, and none if the session was asked to end before. The
interpreter answers all lines that were read, one after the other, but for the last one in the
second case; what the console writes are these answers in order, without those to lines that strip
to nothing. There is one prompt for each line that was read, before the answer to it, and one more
exactly if the console stopped at the end of the input. In the end the frames and the wish to quit
are those that the interpreter leaves after all lines that were read. If the console stopped
before the end of the input, nothing depends on the lines that it did not read. And in a session
whose widths are all small enough, every line is answered. -/
theorem console_folds_interpreter (width : Width) (inputs : List Session.Input)
    (prompt : String) (lines : List String) :
    let machine := Session.run inputs start
    let transcript := run (.ok width) prompt .endOfInput lines machine
    ∃ read unread texts last,
      Follows (.ok width) prompt lines machine transcript read unread texts last ∧
      transcript.written = ((read.zip texts).filter fun entry =>
        Text.strip entry.1.toList ≠ []).map Prod.snd ∧
      transcript.prompts = List.replicate
        (read.length + if transcript.stop = .endOfInput then 1 else 0) prompt ∧
      (transcript.stop ≠ .endOfInput → ∀ ending others,
        run (.ok width) prompt ending (read ++ others) machine = transcript) ∧
      (width.bits ≤ Session.writableBits →
        (∀ input ∈ inputs, ∃ w, input.width = .ok w ∧ w.bits ≤ Session.writableBits) →
        transcript.stop = .quit ∨ transcript.stop = .endOfInput) := by
  intro machine transcript
  have hstart : Session.Indistinct (logStart machine) machine := ⟨rfl, rfl⟩
  obtain ⟨read, unread, texts, last, hfollows, hstops⟩ :=
    converse_folds width prompt lines inputs hstart
  obtain ⟨after, hrun, hafter⟩ :=
    run_eq_converse (.ok width) prompt .endOfInput lines machine
  have hrun : transcript = _ := hrun
  have hlogged : Follows (.ok width) prompt lines machine transcript read unread texts last := by
    rw [hrun]
    exact { hfollows with indistinct := hafter.trans hfollows.indistinct }
  have hevents : transcript.events = (read.zip texts).flatMap (exchange prompt) ++
      List.replicate (if transcript.stop = .quit then 0 else 1) (.prompted prompt) := by
    rw [hlogged.events]
    split <;> rfl
  obtain ⟨hwritten, hprompts⟩ := written_prompts_of_events hevents
  refine ⟨read, unread, texts, last, hlogged, hwritten, ?_, fun hstop ending others => ?_,
    fun hbits hinputs => ?_⟩
  · have hlength := hlogged.length_eq
    rw [hprompts, List.length_zip]
    congr 1
    rcases hlogged.stopped with ⟨hstop, -⟩ | ⟨hstop, -⟩ | ⟨hstop, -⟩
    all_goals
      rw [hstop] at hlength ⊢
      simp only [reduceCtorEq, if_true, if_false] at hlength ⊢
      omega
  · have hstop' : (converse (.ok width) prompt .endOfInput lines (logStart machine)).stop
        ≠ .endOfInput := by
      rw [hrun] at hstop
      exact hstop
    show run (.ok width) prompt ending (read ++ others) machine
      = run (.ok width) prompt .endOfInput lines machine
    rw [run, run, hstops hstop' ending others]
  · have hnever := hlogged.stop_ne_failed hbits hinputs
    rcases hlogged.stopped with ⟨hstop, -⟩ | ⟨hstop, -⟩ | ⟨hstop, -⟩
    · exact .inl hstop
    · exact .inr hstop
    · exact absurd hstop hnever

/-- A fresh console under fifteen thousand bits stops at a line with the numeral of the least number
that is too long: it prompts for the line, writes nothing, and never reads the next line. -/
theorem console_stops_at_long_number :
    let long : Int := (Nat.pow 10 Text.maxDigits : Nat)
    let transcript := run (.ok ⟨15000, by decide⟩) "> " .endOfInput
      [(Term.number long).write, "2"] start
    transcript.stop = .failed (.misuse .overlong) ∧ transcript.written = [] ∧
      transcript.prompts = ["> "] := by
  -- for any such line, so that the digits of the number are never looked at
  have hstops : ∀ line, respond (.ok ⟨15000, by decide⟩) line start
        = .error (.misuse .overlong) start →
      let transcript := run (.ok ⟨15000, by decide⟩) "> " .endOfInput [line, "2"] start
      transcript.stop = .failed (.misuse .overlong) ∧ transcript.written = [] ∧
        transcript.prompts = ["> "] := by
    intro line hline transcript
    obtain ⟨read, unread, texts, last, hfollows, hwritten, hprompts, -⟩ :=
      console_folds_interpreter ⟨15000, by decide⟩ [] "> " [line, "2"]
    obtain ⟨hstop, rfl, rfl⟩ := hfollows.of_unanswered rfl hline
    rw [hstop] at hprompts
    exact ⟨hstop, hwritten, hprompts⟩
  exact hstops _
    (Session.respond_number (by decide +kernel) Text.isWritable_pow_maxDigits start)

end Console

end ScopeLisp
