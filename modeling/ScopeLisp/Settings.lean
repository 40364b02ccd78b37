import ScopeLisp.Text.Blank
import ScopeLisp.Text.Decimal
import ScopeLisp.Text.Quoted

/-!
# Settings

Three variables of the environment steer a session: the width of integers, the prompt of the
console and the threshold of the log. The width is looked up each time a number is read or
computed, so a malformed width harms only a session that uses numbers.

A width may be any number of bits. The bounds of a width of billions of bits are integers here like
any others, and no width exhausts the memory that there is to compute them in.

* `Width.holds_zero`, `Width.holds_one`: the neutral elements of addition and multiplication fit
  into every width.
* `Width.holds_mono`: a wider width holds what a narrower one holds.
* `integerSetting_two_le`: an integer that was set, and not left to its default, is at least two.
-/

namespace ScopeLisp

/-! ## The environment -/

/-- The variables that are set, each at most once. -/
abbrev Environment := List (String × String)

/-- The environment after setting a variable, or after unsetting it. -/
def Environment.update (env : Environment) (key : String) (value : Option String) : Environment :=
  let others := env.filter fun entry => entry.1 != key
  match value with
  | some text => others ++ [(key, text)]
  | none => others

/-! ## Integers -/

/-- Why an integer setting is refused. -/
inductive SettingError where
  /-- The text is no numeral. -/
  | notAnInteger (key : String) (raw : String)
  /-- The integer is below two. -/
  | tooSmall (key : String) (value : Int)
deriving DecidableEq

def SettingError.message : SettingError → String
  | .notAnInteger key raw => key ++ " must be an integer, got " ++ Text.quotedString raw
  | .tooSmall key value => key ++ " must be at least 2, got " ++ Text.decimal value

/-- The value of an integer setting written as `raw`. A variable that is unset or blank has the
value `fallback`, whatever that is; one that is set must be at least two. -/
def integerSetting (key : String) (raw : Option String) (fallback : Int) :
    Except SettingError Int :=
  match raw with
  | none => .ok fallback
  | some text =>
    match Text.strip text.toList with
    | [] => .ok fallback
    | numeral =>
      match Text.readInteger? numeral with
      | none => .error (.notAnInteger key text)
      | some value => if value < 2 then .error (.tooSmall key value) else .ok value

theorem integerSetting_two_le {key : String} {raw : Option String} {fallback value : Int}
    (h : integerSetting key raw fallback = .ok value) : value = fallback ∨ 2 ≤ value := by
  unfold integerSetting at h
  repeat' split at h
  all_goals first
    | exact .inl (Except.ok.inj h).symm
    | cases h
  all_goals omega

/-! ## The width of integers -/

/-- A width of integers in bits, at least two. -/
structure Width where
  bits : Nat
  two_le : 2 ≤ bits
deriving DecidableEq

namespace Width

/-- The width of `n` bits, or of two bits if `n` is less. -/
def ofInt (n : Int) : Width := ⟨max 2 n.toNat, Nat.le_max_left ..⟩

/-- The number of integers of the width that are not negative, as many as are negative. -/
def half (w : Width) : Nat := Nat.pow 2 (w.bits - 1)

/-- The least integer of the width. -/
def low (w : Width) : Int := -(w.half : Int)

/-- The greatest integer of the width. -/
def high (w : Width) : Int := (w.half : Int) - 1

/-- Whether an integer is within the bounds of the width. -/
def holds (w : Width) (n : Int) : Bool := w.low ≤ n && n ≤ w.high

theorem holds_iff {w : Width} {n : Int} : w.holds n = true ↔ w.low ≤ n ∧ n ≤ w.high := by
  simp [holds]

theorem half_mono {v w : Width} (hvw : v.bits ≤ w.bits) : v.half ≤ w.half :=
  Nat.pow_le_pow_right (by decide) (by omega)

theorem two_le_half (w : Width) : 2 ≤ w.half := by
  have h := w.two_le
  have : Nat.pow 2 1 ≤ Nat.pow 2 (w.bits - 1) := Nat.pow_le_pow_right (by decide) (by omega)
  exact this

theorem holds_zero (w : Width) : w.holds 0 = true := by
  have := w.two_le_half
  simp only [holds_iff, low, high]
  omega

theorem holds_one (w : Width) : w.holds 1 = true := by
  have := w.two_le_half
  simp only [holds_iff, low, high]
  omega

/-- A wider width holds what a narrower one holds. -/
theorem holds_mono {v w : Width} (hvw : v.bits ≤ w.bits) {n : Int} (h : v.holds n = true) :
    w.holds n = true := by
  have := half_mono hvw
  simp only [holds_iff, low, high] at h ⊢
  omega

end Width

/-- The width as it is looked up: it may turn out to be malformed. -/
abbrev WidthSetting := Except SettingError Width

/-- The number of bits that the environment asks for, sixty-four by default. -/
def Environment.intBits (env : Environment) : Except SettingError Int :=
  integerSetting "GUCI_INT_BITS" (env.lookup "GUCI_INT_BITS") 64

/-- The width that the environment asks for. -/
def Environment.width (env : Environment) : WidthSetting :=
  env.intBits.map Width.ofInt

/-! ## Prompt and log threshold -/

/-- The prompt of the console. An empty one is kept. -/
def Environment.prompt (env : Environment) : String :=
  (env.lookup "GUCI_PROMPT").getD "prompt> "

/-- Upper case, as far as the names of levels need it: the ASCII letters, and the two letters
outside ASCII whose capitals are ASCII. -/
def upperChar (c : Char) : Char :=
  if c = 'ı' then 'I' else if c = 'ſ' then 'S' else c.toUpper

/-- The thresholds by name. -/
def levelNames : List (String × Nat) :=
  [("CRITICAL", 50), ("FATAL", 50), ("ERROR", 40), ("WARN", 30), ("WARNING", 30), ("INFO", 20),
   ("DEBUG", 10), ("NOTSET", 0)]

/-- The least level that is logged: warnings, unless the environment names another one. -/
def Environment.logThreshold (env : Environment) : Nat :=
  let raw := (env.lookup "GUCI_LOG_LEVEL").getD "WARNING"
  let name := String.ofList ((Text.strip raw.toList).map upperChar)
  (levelNames.lookup name).getD 30

end ScopeLisp
