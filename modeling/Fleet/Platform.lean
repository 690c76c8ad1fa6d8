import Fleet.Error
import Fleet.Text.Blank

/-!
# Platforms

A platform is an operating system and a processor architecture, written
`os:arch`.

* **reading** — `Platform.parse` looks at the text before the first colon and
  at the text between the first and the second; both are trimmed and neither
  may be blank; anything after a second colon is left unread;
* **writing** — `Platform.text` joins the two by a colon.
-/

namespace Fleet

/-- An operating system and a processor architecture. -/
structure Platform where
  os : String
  arch : String
  deriving DecidableEq, Repr, Inhabited

namespace Platform

/-- The characters before the first colon, and those after it if there is one. -/
def splitColon : List Char → List Char × Option (List Char)
  | [] => ([], none)
  | c :: rest =>
    if c = ':' then ([], some rest)
    else
      let (before, after) := splitColon rest
      (c :: before, after)

/-- The two parts of a platform text, trimmed; `none` when there is no colon
or when a part is blank. -/
def parts? (text : List Char) : Option (List Char × List Char) :=
  match splitColon text with
  | (_, none) => none
  | (first, some rest) =>
    let os := Text.trimChars first
    let arch := Text.trimChars (splitColon rest).1
    if os.isEmpty || arch.isEmpty then none else some (os, arch)

/-- Reads a platform. -/
def parse (text : String) : Except ValueError Platform :=
  match parts? text.toList with
  | some (os, arch) => .ok ⟨String.ofList os, String.ofList arch⟩
  | none => .error (.invalidPlatform text)

/-- A platform as it is written. -/
def text (p : Platform) : String := p.os ++ ":" ++ p.arch

/-- A letter of the basic Latin alphabet in lower case; any other character as
it is. -/
def lowerLatin (c : Char) : Char := if 'A' ≤ c ∧ c ≤ 'Z' then Char.ofNat (c.toNat + 32) else c

/-- Whether the operating system is Windows, in whatever case it is written. -/
def isWindows (p : Platform) : Bool := p.os.toList.map lowerLatin == "windows".toList

end Platform

end Fleet
