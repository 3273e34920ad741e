/-!
# Integer literals

A literal is a run of decimal digits, or a size in bits, an apostrophe, an optional sign letter,
a base letter and digits of that base. The size may be missing. Underscores between digits are
ignored. A value has to be below `2 ^ 63`, a size below `2 ^ 32`, and a value has to fit into the
size it is given. Digits for unknown bits have no value.

## Main definitions

* `LiteralFault`: why a text is no literal with a value; `LiteralFault.message` its wording
* `digitsValue`: the value of a run of digits in a base
* `literalValue`: the value of a literal
-/

namespace HdlModule

/-- Why a text is no literal with a value. -/
inductive LiteralFault where
  | notAnInteger
  | unknownBits
  | overflow
  /-- The value does not fit into `size` bits. -/
  | exceedsSize (size : Nat)
deriving DecidableEq

/-- The message for a literal with a fault. -/
def LiteralFault.message (literal : String) : LiteralFault → String
  | notAnInteger => "'" ++ literal ++ "' is not an integer literal"
  | unknownBits => "'" ++ literal ++ "' contains unknown bits"
  | overflow => "'" ++ literal ++ "' does not fit in a 64-bit integer"
  | exceedsSize size =>
    "'" ++ literal ++ "' does not fit in its declared size of " ++ toString size ++ " bits"

/-- The value of a character as a digit in a base of at most 16. -/
def digitValue? (base : Nat) (c : Char) : Option Nat :=
  let value? :=
    if c.isDigit then some (c.toNat - '0'.toNat)
    else if 'a' ≤ c.toLower ∧ c.toLower ≤ 'f' then some (c.toLower.toNat - 'a'.toNat + 10)
    else none
  value?.filter (· < base)

/-- The value of a run of digits in a base, or `none` if a character is no digit. -/
def positional? (base : Nat) (value : Nat) : List Char → Option Nat
  | [] => some value
  | c :: cs => (digitValue? base c).bind fun d => positional? base (value * base + d) cs

/-- The value of a run of digits and underscores with at least one digit. -/
def digitsValue (base : Nat) (cs : List Char) : Except LiteralFault Nat :=
  match cs.filter (· ≠ '_') with
  | [] => .error .notAnInteger
  | digits =>
    match positional? base 0 digits with
    | none => .error .notAnInteger
    | some value => if value < 0x8000000000000000 then .ok value else .error .overflow

/-- The base that a letter stands for. -/
def base? (letter : Char) : Option Nat :=
  match letter.toLower with
  | 'b' => some 2
  | 'o' => some 8
  | 'd' => some 10
  | 'h' => some 16
  | _ => none

/-- Whether a character stands for an unknown bit. -/
def isUnknownBit (c : Char) : Bool := c == '?' || c.toLower == 'x' || c.toLower == 'z'

/-- The value of what follows the apostrophe: an optional sign letter, a base letter, digits. -/
def basedValue (cs : List Char) : Except LiteralFault Nat :=
  let body :=
    match cs with
    | c :: rest => if c.toLower = 's' then rest else cs
    | [] => []
  match body with
  | [] => .error .notAnInteger
  | letter :: digits =>
    match base? letter with
    | none => .error .notAnInteger
    | some base => if digits.any isUnknownBit then .error .unknownBits else digitsValue base digits

/-- The size in front of the apostrophe: `none` if nothing stands there. -/
def sizeValue (cs : List Char) : Except LiteralFault (Option Nat) :=
  if cs = [] then .ok none
  else do
    let size ← digitsValue 10 cs
    if size < UInt32.size then .ok (some size) else .error .overflow

/-- A value that has to fit into a number of bits. Every value fits into 64 bits and more. -/
def fitted (size? : Option Nat) (value : Nat) : Except LiteralFault Nat :=
  match size? with
  | some size =>
    if size < 64 ∧ value >>> size ≠ 0 then .error (.exceedsSize size) else .ok value
  | none => .ok value

/-- The value of a literal. Everything up to the first apostrophe is its size. -/
def literalValue (cs : List Char) : Except LiteralFault Nat :=
  match cs.dropWhile (· ≠ '\x27') with
  | [] => digitsValue 10 cs
  | _ :: body => do
    let size? ← sizeValue (cs.takeWhile (· ≠ '\x27'))
    let value ← basedValue body
    fitted size? value

end HdlModule
