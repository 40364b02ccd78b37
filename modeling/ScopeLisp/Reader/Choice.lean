import ScopeLisp.Reader.CharClass
import ScopeLisp.Reader.Failure

/-!
# Choice

Parsers are tried in order. A failure that is not fatal moves on to the next one. When all of them
fail, the failure that got furthest into the input is the one worth reporting.

* `alternative_cons`: a choice asks its parsers in order.
* `exists_of_alternative_ok`: what a choice gives is given by one of its parsers.
-/

namespace ScopeLisp.Reader

variable {α : Type}

/-! ## The failure to report -/

/-- Whether a failure is known to have left fewer than `start` characters over. -/
def Failure.isPast (start : Nat) (failure : Failure) : Bool :=
  match failure.rest with
  | some rest => rest.length < start
  | none => false

/-- The number of characters that a failure left over. -/
def Failure.left (failure : Failure) : Nat := (failure.rest.getD []).length

/-- Of two failures the one that got further into the input, the first one if they are level. -/
def Failure.further (first second : Failure) : Failure :=
  if second.left < first.left then second else first

/-- The failure that got furthest into the input, the first of those that did. -/
def furthest? : List Failure → Option Failure
  | [] => none
  | failure :: rest => some (rest.foldl Failure.further failure)

/-- What a choice reports when all its parsers fail: the failure that got furthest past the first
character that is not blank, or that nothing matched. -/
def diagnose (source : List Char) (failures : List Failure) : Failure :=
  let start := (skipBlanks source).length
  match furthest? (failures.filter (·.isPast start)) with
  | some failure => failure
  | none => { cause := .noAlternative, rest := some source }

/-! ## Trying in order -/

/-- Tries the parsers in order, `failures` being those of the parsers before them. -/
def tryEach (source : List Char) : (failures : List Failure) → List (Parser α) → Outcome α
  | failures, [] => .error (.failure (diagnose source failures))
  | failures, p :: ps =>
    match p source with
    | .ok parsed => .ok parsed
    | .error (.setting error) => .error (.setting error)
    | .error (.failure failure) =>
      if failure.fatal then .error (.failure failure)
      else tryEach source (failures ++ [failure]) ps

/-- The first of the parsers that succeeds. -/
def alternative (parsers : List (Parser α)) : Parser α := fun source =>
  tryEach source [] parsers

theorem alternative_cons (p : Parser α) (ps : List (Parser α)) (source : List Char) :
    alternative (p :: ps) source = (match p source with
      | .ok parsed => .ok parsed
      | .error (.setting error) => .error (.setting error)
      | .error (.failure failure) =>
        if failure.fatal then .error (.failure failure)
        else tryEach source [failure] ps) := by
  simp [alternative, tryEach]

theorem exists_of_tryEach_ok {source : List Char} {failures : List Failure}
    {parsers : List (Parser α)} {parsed : Parsed α}
    (h : tryEach source failures parsers = .ok parsed) :
    ∃ p ∈ parsers, p source = .ok parsed := by
  induction parsers generalizing failures with
  | nil => cases h
  | cons p ps ih =>
    simp only [tryEach] at h
    split at h
    · rename_i hp
      exact ⟨p, List.mem_cons_self, hp.trans h⟩
    · cases h
    · split at h
      · cases h
      · obtain ⟨q, hq, hqs⟩ := ih h
        exact ⟨q, List.mem_cons_of_mem _ hq, hqs⟩

theorem exists_of_alternative_ok {parsers : List (Parser α)} {source : List Char}
    {parsed : Parsed α} (h : alternative parsers source = .ok parsed) :
    ∃ p ∈ parsers, p source = .ok parsed :=
  exists_of_tryEach_ok h

end ScopeLisp.Reader
