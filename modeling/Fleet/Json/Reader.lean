import Fleet.Json.Value
import Fleet.Text.Token

/-!
# Reading JSON

`read?` reads a whole text as one JSON value with blanks around it and nothing
else. Every reader below takes the characters that are left and gives back
what it read and the characters it left; fuel, which is the length of the
text, only serves to make the recursion through arrays and objects evident.
-/

namespace Fleet.Json

/-- The characters that may stand between the parts of a JSON text. -/
def isSpace (c : Char) : Bool := c == ' ' || c == '\n' || c == '\t' || c == '\r'

/-- The characters after any blanks. -/
def skipSpace (cs : List Char) : List Char := cs.dropWhile isSpace

/-- The characters after an expected start. -/
def expect? : List Char → List Char → Option (List Char)
  | [], cs => some cs
  | e :: es, c :: cs => if e = c then expect? es cs else none
  | _ :: _, [] => none

/-- The number of four hexadecimal digits. -/
def hex4? : List Char → Option (Nat × List Char)
  | a :: b :: c :: d :: rest => do
    let a ← Text.hexValue? a
    let b ← Text.hexValue? b
    let c ← Text.hexValue? c
    let d ← Text.hexValue? d
    pure (((a * 16 + b) * 16 + c) * 16 + d, rest)
  | _ => none

/-- A 16-bit unit of a text. -/
inductive TextUnit
  | char (c : Char)
  | surrogate (n : Nat)

/-- Whether a unit opens a surrogate pair. -/
def isHigh (n : Nat) : Bool := 0xD800 ≤ n && n ≤ 0xDBFF

/-- Whether a unit closes a surrogate pair. -/
def isLow (n : Nat) : Bool := 0xDC00 ≤ n && n ≤ 0xDFFF

/-- The characters of units, when all surrogates come in pairs. -/
def pairUp? : List TextUnit → Option (List Char)
  | [] => some []
  | .char c :: rest => (pairUp? rest).map (c :: ·)
  | .surrogate h :: .surrogate l :: rest =>
    if isHigh h && isLow l then
      (pairUp? rest).map (Char.ofNat (0x10000 + (h - 0xD800) * 0x400 + (l - 0xDC00)) :: ·)
    else none
  | .surrogate _ :: _ => none

/-- The character that a letter after a backslash stands for. -/
def escape? : Char → Option Char
  | '"' => some '"'
  | '\\' => some '\\'
  | '/' => some '/'
  | 'b' => some '\x08'
  | 'f' => some '\x0c'
  | 'n' => some '\n'
  | 'r' => some '\r'
  | 't' => some '\t'
  | _ => none

/-- The units of a text after its opening quote. -/
def units? : (fuel : Nat) → List Char → Option (List TextUnit × List Char)
  | 0, _ => none
  | _ + 1, [] => none
  | _ + 1, '"' :: rest => some ([], rest)
  | fuel + 1, '\\' :: 'u' :: rest => do
    let (n, rest) ← hex4? rest
    let (us, rest) ← units? fuel rest
    let u := if 0xD800 ≤ n ∧ n ≤ 0xDFFF then TextUnit.surrogate n else .char (Char.ofNat n)
    pure (u :: us, rest)
  | fuel + 1, '\\' :: e :: rest => do
    let c ← escape? e
    let (us, rest) ← units? fuel rest
    pure (.char c :: us, rest)
  | fuel + 1, c :: rest => do
    if c.toNat < 0x20 || c == '\\' then none
    else
      let (us, rest) ← units? fuel rest
      pure (.char c :: us, rest)

/-- A text after its opening quote; `none` inside when its surrogates do not
pair up. -/
def text? (cs : List Char) : Option (Option String × List Char) := do
  let (us, rest) ← units? (cs.length + 1) cs
  pure ((pairUp? us).map String.ofList, rest)

/-- One or more digits. -/
def digits? (cs : List Char) : Option (List Char × List Char) :=
  match cs.span Char.isDigit with
  | ([], _) => none
  | (ds, rest) => some (ds, rest)

/-- The digits before the point: a zero, or digits that do not start with one. -/
def integerPart? : List Char → Option (List Char × List Char)
  | '0' :: rest =>
    match rest with
    | c :: _ => if c.isDigit then none else some (['0'], rest)
    | [] => some (['0'], [])
  | cs => digits? cs

/-- The digits after a point, if there is one; whether there was. -/
def fractionPart? : List Char → Option (Bool × List Char)
  | '.' :: rest => (digits? rest).map fun d => (true, d.2)
  | cs => some (false, cs)

/-- The exponent, if there is one; whether there was. -/
def exponentPart? : List Char → Option (Bool × List Char)
  | c :: rest =>
    if c == 'e' || c == 'E' then
      let unsigned := match rest with
        | '+' :: r => r
        | '-' :: r => r
        | r => r
      (digits? unsigned).map fun d => (true, d.2)
    else some (false, c :: rest)
  | [] => some (false, [])

/-- The number that decimal digits write. -/
def natOfDigits (cs : List Char) : Nat :=
  cs.foldl (fun n c => 10 * n + (c.toNat - '0'.toNat)) 0

/-- A number. A minus sign makes a zero one that is not whole, because it is
told apart from zero. -/
def number? (cs : List Char) : Option (Value × List Char) := do
  let (negative, cs) := match cs with
    | '-' :: rest => (true, rest)
    | cs => (false, cs)
  let (ds, cs) ← integerPart? cs
  let (pointed, cs) ← fractionPart? cs
  let (scaled, cs) ← exponentPart? cs
  let n := natOfDigits ds
  let value :=
    if pointed || scaled || (negative && n == 0) then Value.other
    else .whole (if negative then -(n : Int) else n)
  pure (value, cs)

mutual

/-- A value, blanks before it skipped. -/
def value? : (fuel : Nat) → List Char → Option (Value × List Char)
  | 0, _ => none
  | fuel + 1, cs =>
    match skipSpace cs with
    | 'n' :: rest => (expect? "ull".toList rest).map fun r => (.null, r)
    | 't' :: rest => (expect? "rue".toList rest).map fun r => (.bool true, r)
    | 'f' :: rest => (expect? "alse".toList rest).map fun r => (.bool false, r)
    | '"' :: rest => (text? rest).map fun (s, r) => (.text s, r)
    | '[' :: rest =>
      match skipSpace rest with
      | ']' :: r => some (.array [], r)
      | r => (items? fuel r).map fun (vs, r) => (.array vs, r)
    | '{' :: rest =>
      match skipSpace rest with
      | '}' :: r => some (.object [], r)
      | r => (members? fuel r).map fun (ms, r) => (.object ms, r)
    | r => number? r

/-- The items of an array up to its closing bracket. -/
def items? : (fuel : Nat) → List Char → Option (List Value × List Char)
  | 0, _ => none
  | fuel + 1, cs => do
    let (v, rest) ← value? fuel cs
    match skipSpace rest with
    | ',' :: rest =>
      let (vs, rest) ← items? fuel rest
      pure (v :: vs, rest)
    | ']' :: rest => pure ([v], rest)
    | _ => none

/-- The members of an object up to its closing brace. -/
def members? : (fuel : Nat) → List Char → Option (List (Option String × Value) × List Char)
  | 0, _ => none
  | fuel + 1, cs =>
    match skipSpace cs with
    | '"' :: rest => do
      let (key, rest) ← text? rest
      match skipSpace rest with
      | ':' :: rest =>
        let (v, rest) ← value? fuel rest
        match skipSpace rest with
        | ',' :: rest =>
          let (ms, rest) ← members? fuel rest
          pure ((key, v) :: ms, rest)
        | '}' :: rest => pure ([(key, v)], rest)
        | _ => none
      | _ => none
    | _ => none

end

/-- The value of a JSON text. -/
def read? (s : String) : Option Value :=
  let cs := s.toList
  match value? (2 * cs.length + 2) cs with
  | some (v, rest) => if (skipSpace rest).isEmpty then some v else none
  | none => none

end Fleet.Json
