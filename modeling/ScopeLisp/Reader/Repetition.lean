import ScopeLisp.Reader.Failure

/-!
# Single characters and repetition

The smallest parser reads one character out of a given choice. A parser is repeated until it
fails. A failure that is not fatal is the end of the repetition; a fatal one is the failure of the
repetition itself.

* `star_eq`: one step of a repetition.
* `star_congr`: a repetition depends on its parser only at inputs no longer than its own.
* `length_star_rest_le`: a repetition of a parser that never lengthens its input does not either.
-/

namespace ScopeLisp.Reader

variable {α β : Type}

/-! ## One character -/

/-- Reads one character out of `chars`. -/
def skipOneOf (chars : List Char) : Parser Unit
  | [] => failAt .characterMismatch []
  | c :: rest =>
    if chars.contains c then .ok ⟨(), rest⟩ else failAt .characterMismatch (c :: rest)

/-! ## Repetition -/

/-- Repeats `p` until it fails, folding its values from the left onto `initial`. A match that
does not shorten the input is folded in and ends the repetition: it would match forever. -/
def star (p : Parser α) (op : β → α → β) (initial : β) (source : List Char) : Outcome β :=
  match p source with
  | .error (.failure failure) =>
    if failure.fatal then .error (.failure failure) else .ok ⟨initial, source⟩
  | .error (.setting error) => .error (.setting error)
  | .ok ⟨value, rest⟩ =>
    if rest.length < source.length then star p op (op initial value) rest
    else .ok ⟨op initial value, rest⟩
termination_by source.length

/-- Folds a value in by an operation, or drops it if there is none. -/
def foldIn : Option (β → α → β) → β → α → β
  | some op => op
  | none => fun folded _ => folded

/-- Repeats `p` until it fails, with or without an operation to fold its values in by. -/
def repeated (p : Parser α) (op : Option (β → α → β)) (initial : β) : Parser β :=
  star p (foldIn op) initial

/-- Repeats `p` until it fails and drops its values. -/
def skipMany (p : Parser α) : Parser Unit := repeated p none ()

/-- Repeats `p` until it fails and lists its values. -/
def many (p : Parser α) : Parser (List α) := star p (fun values value => values ++ [value]) []

theorem star_eq (p : Parser α) (op : β → α → β) (initial : β) (source : List Char) :
    star p op initial source = (match p source with
      | .error (.failure failure) =>
        if failure.fatal then .error (.failure failure) else .ok ⟨initial, source⟩
      | .error (.setting error) => .error (.setting error)
      | .ok ⟨value, rest⟩ =>
        if rest.length < source.length then star p op (op initial value) rest
        else .ok ⟨op initial value, rest⟩) := by
  rw [star]

theorem star_congr {p q : Parser α} (op : β → α → β) (initial : β) (source : List Char)
    (h : ∀ s : List Char, s.length ≤ source.length → p s = q s) :
    star p op initial source = star q op initial source := by
  rw [star_eq p, star_eq q, ← h source (Nat.le_refl _)]
  split
  · rfl
  · rfl
  · rename_i value rest _
    split
    · rename_i hlt
      exact star_congr op _ rest fun s hs => h s (by omega)
    · rfl
termination_by source.length

theorem length_star_rest_le {p : Parser α} {op : β → α → β} {initial : β} {source : List Char}
    {parsed : Parsed β}
    (hp : ∀ s r, p s = .ok r → r.rest.length ≤ s.length)
    (h : star p op initial source = .ok parsed) : parsed.rest.length ≤ source.length := by
  rw [star_eq] at h
  split at h
  · split at h
    · cases h
    · cases h
      exact Nat.le_refl _
  · cases h
  · rename_i value rest hps
    split at h
    · rename_i hlt
      have := length_star_rest_le hp h
      omega
    · cases h
      exact hp _ _ hps
termination_by source.length

end ScopeLisp.Reader
