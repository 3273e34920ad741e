import HdlModule.Refusal
import HdlModule.Parameter
import HdlModule.Text.Blank
import HdlModule.Text.Decimal

/-!
# Attributes of parameters

An instance of a module may override the default value of a parameter by an integer of 32 bits.
The attribute of a parameter reads and shows such values; no value stands for the default.

## Main definitions

* `Attribute`: the attribute of a parameter
* `Attribute.parse`: the value that a text stands for
* `Attribute.display`: a value as it is shown
-/

namespace HdlModule

/-- The attribute of a parameter. The key stays as it is when the parameter changes. -/
structure Attribute where
  key : String
  parameter : Parameter
deriving DecidableEq

namespace Attribute

/-- The attribute of a parameter. -/
def ofParameter (p : Parameter) : Attribute := ⟨"sv_" ++ p.name, p⟩

/-- The attribute for a changed parameter. -/
def refresh (a : Attribute) (p : Parameter) : Attribute := { a with parameter := p }

/-- A value as it is shown. No value is shown as the default. -/
def display (a : Attribute) : Option Int32 → String
  | some v => toString v.toInt
  | none => "(default) " ++ toString a.parameter.default.toInt

/-- The value that a trimmed text stands for if it is not one of those for the default. A numeral
has to fit into 64 bits to count as an integer at all. -/
def override (text : String) : Except Refusal (Option Int32) :=
  match signedDecimalValue? text.toList with
  | none => .error (.value text .notAnInteger)
  | some n =>
    if n < Int64.minValue.toInt ∨ Int64.maxValue.toInt < n then
      .error (.value text .notAnInteger)
    else if n < Int32.minValue.toInt then .error (.value text .tooSmall)
    else if Int32.maxValue.toInt < n then .error (.value text .tooLarge)
    else .ok (some (Int32.ofInt n))

/-- Whether a trimmed text stands for the default. -/
def isDefaultText (a : Attribute) (text : String) : Bool :=
  text == "" || text == "default" || text == "(default)" || text == a.display none

/-- The value that a text stands for. Blanks around it do not matter. -/
def parse (a : Attribute) (text : String) : Except Refusal (Option Int32) :=
  let trimmed := String.ofList (trimBlank text.toList)
  if a.isDefaultText trimmed then .ok none else override trimmed

end Attribute

end HdlModule
