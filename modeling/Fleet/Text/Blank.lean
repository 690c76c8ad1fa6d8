/-!
# Blank characters and trimming

The characters that count as blank are those with the Unicode property
`White_Space`; they are listed here once. Everything that is read from a
person (identifiers, addresses, settings) is trimmed of them at both ends.

* **table** — `isBlank` is the whole property, not the ASCII part of it;
* **trimming** — `trimChars` keeps what lies between the first and the last
  character that is not blank.
-/

namespace Fleet.Text

/-- Whether a character has the Unicode property `White_Space`. -/
def isBlank (c : Char) : Bool :=
  let n := c.toNat
  (0x09 ≤ n && n ≤ 0x0D) || n == 0x20 || n == 0x85 || n == 0xA0 || n == 0x1680 ||
    (0x2000 ≤ n && n ≤ 0x200A) || n == 0x2028 || n == 0x2029 || n == 0x202F ||
    n == 0x205F || n == 0x3000

/-- The characters without the blank ones at either end. -/
def trimChars (cs : List Char) : List Char :=
  ((cs.dropWhile isBlank).reverse.dropWhile isBlank).reverse

/-- The text without the blank characters at either end. -/
def trim (s : String) : String := String.ofList (trimChars s.toList)

/-- Whether a text holds nothing but blank characters. -/
def allBlank (s : String) : Bool := s.toList.all isBlank

end Fleet.Text
