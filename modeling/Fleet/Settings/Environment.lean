import Fleet.Error
import Fleet.Text.Blank

/-!
# Settings from the environment

A setting may come from an environment variable. Its text is trimmed and read
as what it looks like: `true` and `false` are flags, digits with an optional
sign are whole numbers, a decimal with a point is a fraction, and everything
else is text. A field takes only what it can hold, so a number given to a text
field is refused just as text given to a number field is.

Flags are never taken from the environment: the command line is the last word
on them, and without a command line they are off.
-/

namespace Fleet.Settings

/-- What the text of a variable looks like. -/
inductive Reading
  | flag (value : Bool)
  | whole (value : Int)
  | fraction
  | text (value : String)
  deriving DecidableEq, Repr

namespace Reading

/-- Whether there is at least one character and all are decimal digits. -/
def isDigits (cs : List Char) : Bool := !cs.isEmpty && cs.all Char.isDigit

/-- The number that decimal digits write. -/
def natOfDigits (cs : List Char) : Nat :=
  cs.foldl (fun n c => 10 * n + (c.toNat - '0'.toNat)) 0

/-- The characters after an optional sign, and whether the sign was a minus. -/
def unsign : List Char → Bool × List Char
  | '-' :: rest => (true, rest)
  | '+' :: rest => (false, rest)
  | cs => (false, cs)

/-- A whole number that fits 64 bits, signed or unsigned. -/
def whole? (cs : List Char) : Option Int :=
  let (negative, digits) := unsign cs
  if !isDigits digits then none
  else
    let n := natOfDigits digits
    if negative then if n ≤ Nat.pow 2 63 then some (-(n : Int)) else none
    else if n < UInt64.size then some n else none

/-- Whether a text without its sign is digits, maybe with a point among them,
and an exponent. -/
def isDecimal (cs : List Char) : Bool :=
  let (mantissa, rest) := cs.span fun c => c != 'e' && c != 'E'
  let (before, after) := mantissa.span (· != '.')
  let after := after.drop 1
  let mantissaOk := before.all Char.isDigit && after.all Char.isDigit &&
    !(before.isEmpty && after.isEmpty)
  let exponentOk := match rest with
    | [] => true
    | _ :: exponent => isDigits (unsign exponent).2
  mantissaOk && exponentOk

/-- What a trimmed text looks like. -/
def ofText (s : String) : Reading :=
  let cs := s.toList
  if s == "true" then flag true
  else if s == "false" then flag false
  else if cs.contains '.' && isDecimal (unsign cs).2 then fraction
  else match whole? cs with
    | some n => whole n
    | none => text s

end Reading

/-- Variables and their values. -/
abbrev Environment := List (String × String)

namespace Environment

/-- What the variable of that name looks like, if it is set. -/
def read? (env : Environment) (name : String) : Option Reading :=
  (env.find? fun e => e.1 == name).map fun e => Reading.ofText (Text.trim e.2)

/-- A whole number below `2 ^ 64`, or the default when the variable is unset. -/
def number (env : Environment) (name : String) (default : Nat) : Except SettingsError Nat :=
  match env.read? name with
  | none => .ok default
  | some (.whole n) => if 0 ≤ n then .ok n.toNat else .error (.unreadable name)
  | some _ => .error (.unreadable name)

/-- A text, or the default when the variable is unset. -/
def text (env : Environment) (name : String) (default : String) : Except SettingsError String :=
  match env.read? name with
  | none => .ok default
  | some (.text s) => .ok s
  | some _ => .error (.unreadable name)

/-- A text, if the variable is set. -/
def text? (env : Environment) (name : String) : Except SettingsError (Option String) :=
  match env.read? name with
  | none => .ok none
  | some (.text s) => .ok (some s)
  | some _ => .error (.unreadable name)

end Environment

end Fleet.Settings
