/-!
# Durations

A span of time, written with the largest unit that leaves a whole part, and with no more digits
of a fraction than needed: `30s`, `1.5s`, `20ms`, `1.001ms`, `0ns`.

## Main definitions

* `Duration`: a number of nanoseconds
* `Duration.text`: its written form
-/

namespace HdlModule

/-- A span of time in nanoseconds. -/
structure Duration where
  nanoseconds : Nat
deriving DecidableEq

namespace Duration

/-- A whole number of microseconds. -/
def ofMicroseconds (n : Nat) : Duration := ⟨n * 1000⟩

/-- A whole number of seconds. -/
def ofSeconds (n : Nat) : Duration := ⟨n * 1000000000⟩

/-- `part` as a decimal fraction of `places` digits, zeros at its end left out, with the point in
front; nothing for zero. -/
def fractionText (places part : Nat) : String :=
  if part = 0 then ""
  else
    let digits := Nat.toDigits 10 part
    let padded := List.replicate (places - digits.length) '0' ++ digits
    "." ++ String.ofList (padded.reverse.dropWhile (· = '0')).reverse

/-- The value in units of `10 ^ places` nanoseconds, with the name of the unit. -/
def inUnit (d : Duration) (places : Nat) (unit : String) : String :=
  toString (d.nanoseconds / Nat.pow 10 places) ++
    fractionText places (d.nanoseconds % Nat.pow 10 places) ++ unit

/-- The written form, in the largest unit that leaves a whole part. -/
def text (d : Duration) : String :=
  if 1000000000 ≤ d.nanoseconds then d.inUnit 9 "s"
  else if 1000000 ≤ d.nanoseconds then d.inUnit 6 "ms"
  else if 1000 ≤ d.nanoseconds then d.inUnit 3 "\u00b5s"
  else d.inUnit 0 "ns"

end Duration

end HdlModule
