/-!
# Decimal numerals

A signed numeral is an optional `+` or `-` and at least one digit from `0` to `9`, nothing else.

## Main definitions

* `decimalValue?`: the value of a run of decimal digits
* `signedDecimalValue?`: the value of a signed numeral
-/

namespace HdlModule

/-- The value of a non-empty run of decimal digits. -/
def decimalValue? (cs : List Char) : Option Nat :=
  if cs ≠ [] ∧ cs.all Char.isDigit then some (Nat.ofDigitChars 10 cs 0) else none

/-- The value of a numeral with an optional sign. -/
def signedDecimalValue? : List Char → Option Int
  | '-' :: cs => (decimalValue? cs).map fun n : Nat => -(n : Int)
  | '+' :: cs => (decimalValue? cs).map fun n : Nat => (n : Int)
  | cs => (decimalValue? cs).map fun n : Nat => (n : Int)

end HdlModule
