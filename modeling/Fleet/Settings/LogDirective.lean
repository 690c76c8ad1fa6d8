import Fleet.Text.Blank

/-!
# Log directives

What is logged is chosen by a directive: a level for everything, or a target
with a level. The environment's directive counts when it is not blank, and the
program's own otherwise. Level names may be written in any case; they are
shown in lower case. A target without a level is logged in full.
-/

namespace Fleet

/-- How much is logged, and of what. -/
structure LogDirective where
  target : Option String
  level : String
  deriving DecidableEq, Repr

namespace LogDirective

/-- The levels by name, from the fewest messages to the most. -/
def levels : List String := ["off", "error", "warn", "info", "debug", "trace"]

/-- The level of a name in any case, or of a digit. -/
def level? (s : String) : Option String :=
  match levels.find? (· == s.toLower) with
  | some l => some l
  | none => (levels.zipIdx.find? fun l => toString l.2 == s).map (·.1)

/-- Whether a character may stand in a target. -/
def isTargetChar (c : Char) : Bool := c.isAlphanum || c == '_' || c == ':' || c == '-'

/-- Whether a text can be a target. -/
def isTarget (s : String) : Bool := !s.isEmpty && s.toList.all isTargetChar

/-- Reads a directive. -/
def ofText? (s : String) : Option LogDirective :=
  if s.isEmpty then some ⟨none, "error"⟩
  else match level? s with
  | some level => some ⟨none, level⟩
  | none =>
    match s.splitOn "=" with
    | [target] => if isTarget target then some ⟨some target, "trace"⟩ else none
    | [target, level] =>
      if !isTarget target then none
      else if level.isEmpty then some ⟨some target, "trace"⟩
      else (level? level).map fun level => ⟨some target, level⟩
    | _ => none

/-- A directive as it is shown. -/
def text (d : LogDirective) : String :=
  match d.target with
  | none => d.level
  | some target => s!"{target}={d.level}"

/-- The directive text in force: the environment's unless it is blank. -/
def inForce (fallback : String) (env : Option String) : String :=
  match env with
  | some value => if Text.allBlank value then fallback else value
  | none => fallback

end LogDirective

end Fleet
