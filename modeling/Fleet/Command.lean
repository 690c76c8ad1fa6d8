import Fleet.Error
import Fleet.Text.Utf8

/-!
# Commands and copies

What is asked of a device, and what comes back. A command is a line for the
remote shell, further arguments, bytes for its input, and a limit. Its output
counts as good when the exit code is zero; `CommandOutput.bytes` and
`CommandOutput.text` refuse any other.
-/

namespace Fleet

/-- A command for a host. -/
structure Command where
  line : String
  args : List String := []
  stdin : Option (List UInt8) := none
  limit : Duration := Duration.ofSecs 30
  deriving DecidableEq, Repr, Inhabited

/-- What a command left behind. -/
structure CommandOutput where
  exitCode : Int
  stdout : List UInt8
  stderr : List UInt8
  command : Command
  deriving DecidableEq, Repr, Inhabited

namespace CommandOutput

/-- Whether the command ended with exit code zero. -/
def success (o : CommandOutput) : Bool := o.exitCode == 0

/-- The standard output of a command that ended well. -/
def bytes (o : CommandOutput) : Except ConnectionError (List UInt8) :=
  if o.success then .ok o.stdout
  else .error (.nonZeroExit o.exitCode o.command.line (Text.Utf8.decodeLossy o.stderr))

/-- The standard output of a command that ended well, read as UTF-8. -/
def text (o : CommandOutput) : Except ConnectionError String :=
  o.bytes.map Text.Utf8.decodeLossy

end CommandOutput

/-- Where a file is copied from and to. For a copy to a device the source is
local and the destination remote; for a copy from one it is the other way
round. -/
structure Copy where
  source : String
  destination : String
  recursive : Bool := false
  deriving DecidableEq, Repr, Inhabited

/-- What a program left behind: no code when a signal ended it. -/
structure ProcessOutput where
  code : Option Int
  stdout : List UInt8 := []
  stderr : List UInt8 := []
  deriving DecidableEq, Repr, Inhabited

namespace ProcessOutput

/-- Whether the program ended with exit code zero. -/
def success (o : ProcessOutput) : Bool := o.code == some 0

/-- The standard error, read as UTF-8. -/
def stderrText (o : ProcessOutput) : String := Text.Utf8.decodeLossy o.stderr

end ProcessOutput

end Fleet
