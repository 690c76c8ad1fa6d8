/-!
# Durations

A duration is a whole number of nanoseconds. `Duration.text` writes it in the
largest of the units s, ms, µs and ns in which it is at least one, with the
rest as a decimal fraction that has no trailing zeros.
-/

namespace Fleet

/-- A length of time in nanoseconds. -/
structure Duration where
  nanos : Nat
  deriving DecidableEq, Repr, Inhabited

namespace Duration

/-- Nanoseconds in a second. -/
def perSecond : Nat := 1000000000

/-- Nanoseconds in a millisecond. -/
def perMilli : Nat := 1000000

/-- The duration of that many seconds. -/
def ofSecs (n : Nat) : Duration := ⟨n * perSecond⟩

/-- The duration of that many milliseconds. -/
def ofMillis (n : Nat) : Duration := ⟨n * perMilli⟩

/-- The duration of seconds and a rest in nanoseconds. -/
def ofParts (secs nanos : Nat) : Duration := ⟨secs * perSecond + nanos⟩

/-- The longest duration that a pair of 64-bit seconds and nanoseconds holds. -/
def longest : Duration := ofParts (UInt64.size - 1) (perSecond - 1)

/-- Whole seconds. -/
def secs (d : Duration) : Nat := d.nanos / perSecond

/-- Nanoseconds beyond the whole seconds. -/
def subsecNanos (d : Duration) : Nat := d.nanos % perSecond

/-- The decimal digits of a fraction `n / 10 ^ width`, leading zeros kept and
trailing zeros dropped. -/
def fractionDigits (width n : Nat) : List Char :=
  let digits := (toString n).toList
  let padded := List.replicate (width - digits.length) '0' ++ digits
  (padded.reverse.dropWhile (· == '0')).reverse

/-- The quotient `n / 10 ^ width` as a decimal number. -/
def decimal (width n : Nat) : String :=
  let whole := toString (n / Nat.pow 10 width)
  match fractionDigits width (n % Nat.pow 10 width) with
  | [] => whole
  | digits => whole ++ "." ++ String.ofList digits

/-- A duration in the largest unit in which it is at least one. -/
def text (d : Duration) : String :=
  if perSecond ≤ d.nanos then decimal 9 d.nanos ++ "s"
  else if perMilli ≤ d.nanos then decimal 6 d.nanos ++ "ms"
  else if 1000 ≤ d.nanos then decimal 3 d.nanos ++ "µs"
  else decimal 0 d.nanos ++ "ns"

end Duration

end Fleet
