/-!
# Reading bytes as UTF-8

`decodeLossy` reads any list of bytes. A well-formed sequence gives its
character; a byte that starts no well-formed sequence is replaced, together
with the bytes after it that could still have continued one, by a single
U+FFFD. So every malformed stretch is cut into its longest incomplete
sequences and each of them is written as one replacement character.
-/

namespace Fleet.Text.Utf8

/-- The character that stands for a malformed sequence. -/
def replacement : Char := '\uFFFD'

/-- Whether a byte lies between two bounds, both included. -/
def within (low high b : UInt8) : Bool := low ≤ b && b ≤ high

/-- Whether a byte can continue a sequence. -/
def isTail (b : UInt8) : Bool := within 0x80 0xBF b

/-- The second bytes that may follow the first byte of a three byte sequence:
overlong forms and surrogates are left out. -/
def secondOfThree (a b : UInt8) : Bool :=
  if a == 0xE0 then within 0xA0 0xBF b
  else if a == 0xED then within 0x80 0x9F b
  else isTail b

/-- The second bytes that may follow the first byte of a four byte sequence:
overlong forms and values above U+10FFFF are left out. -/
def secondOfFour (a b : UInt8) : Bool :=
  if a == 0xF0 then within 0x90 0xBF b
  else if a == 0xF4 then within 0x80 0x8F b
  else isTail b

/-- The six payload bits of a continuation byte. -/
def payload (b : UInt8) : Nat := b.toNat % 64

/-- The characters of a list of bytes, malformed parts replaced. -/
def decodeChars : List UInt8 → List Char
  | [] => []
  | a :: as =>
    if a < 0x80 then Char.ofNat a.toNat :: decodeChars as
    else if within 0xC2 0xDF a then
      match as with
      | b :: bs =>
        if isTail b then Char.ofNat ((a.toNat % 32) * 64 + payload b) :: decodeChars bs
        else replacement :: decodeChars (b :: bs)
      | [] => [replacement]
    else if within 0xE0 0xEF a then
      match as with
      | b :: bs =>
        if secondOfThree a b then
          match bs with
          | c :: cs =>
            if isTail c then
              Char.ofNat ((a.toNat % 16) * 4096 + payload b * 64 + payload c) :: decodeChars cs
            else replacement :: decodeChars (c :: cs)
          | [] => [replacement]
        else replacement :: decodeChars (b :: bs)
      | [] => [replacement]
    else if within 0xF0 0xF4 a then
      match as with
      | b :: bs =>
        if secondOfFour a b then
          match bs with
          | c :: cs =>
            if isTail c then
              match cs with
              | d :: ds =>
                if isTail d then
                  Char.ofNat ((a.toNat % 8) * 262144 + payload b * 4096 + payload c * 64 +
                    payload d) :: decodeChars ds
                else replacement :: decodeChars (d :: ds)
              | [] => [replacement]
            else replacement :: decodeChars (c :: cs)
          | [] => [replacement]
        else replacement :: decodeChars (b :: bs)
      | [] => [replacement]
    else replacement :: decodeChars as
termination_by bytes => bytes.length

/-- The text of a list of bytes, malformed parts replaced. -/
def decodeLossy (bytes : List UInt8) : String := String.ofList (decodeChars bytes)

/-- The bytes of a text. -/
def encode (s : String) : List UInt8 := s.toUTF8.toList

end Fleet.Text.Utf8
