import Fleet.Command

/-!
# Quoting for a POSIX shell

A command's line goes to the remote shell as it is; every argument after it is
written so that the shell reads exactly that argument. A *plain* word, which
is not empty and has only letters, digits and `_=/,.+-`, stands for itself.
Any other is put in single quotes; a single quote or an exclamation mark is
taken out of the quotes and written after a backslash.
-/

namespace Fleet.Shell

/-- The characters that mean nothing to a shell. -/
def isPlain (c : Char) : Bool :=
  ('a' ≤ c && c ≤ 'z') || ('A' ≤ c && c ≤ 'Z') || ('0' ≤ c && c ≤ '9') ||
    c == '_' || c == '=' || c == '/' || c == ',' || c == '.' || c == '+' || c == '-'

/-- Whether a word can stand without quotes. -/
def isPlainWord (word : List Char) : Bool := !word.isEmpty && word.all isPlain

/-- One character of a quoted word. -/
def quoteChar (c : Char) : List Char :=
  if c = '\'' ∨ c = '!' then ['\'', '\\', c, '\''] else [c]

/-- A word as a shell is to be given it. -/
def quote (word : List Char) : List Char :=
  if isPlainWord word then word else '\'' :: (word.flatMap quoteChar ++ ['\''])

/-- The arguments of a command as text, each after a blank. -/
def quoteAll (args : List String) : List Char :=
  args.flatMap fun arg => ' ' :: quote arg.toList

/-- What the remote shell is given for a command. -/
def render (c : Command) : String := c.line ++ String.ofList (quoteAll c.args)

end Fleet.Shell
