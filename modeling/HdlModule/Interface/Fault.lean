import HdlModule.Diagnostic
import HdlModule.Literal
import HdlModule.Token.Basic

/-!
# Faults of a module header

Each way in which a text fails to declare a module is a `Fault`: it names what was expected and
holds the tokens at which the text went wrong. The wording, the span and the hint of the
diagnostic follow from it.

## Main definitions

* `Expectation`: what the grammar asks for at a place, with its code and its wording
* `Fault`: why a text declares no module
* `Fault.diagnostic`: the diagnostic for a fault in a text of a given size
-/

namespace HdlModule

/-- A list in parentheses. -/
inductive HeaderList where
  | parameters
  | ports
deriving DecidableEq

/-- A list in words. -/
def HeaderList.text : HeaderList → String
  | parameters => "parameter list"
  | ports => "port list"

/-- What the grammar asks for at a place. -/
inductive Expectation where
  /-- The parenthesis behind `#`. -/
  | parameterList
  | parameterName
  | parameterEquals (parameter : String)
  | parameterValue (parameter : String)
  /-- A comma or a closing parenthesis behind a parameter. -/
  | parameterSeparator
  /-- The parenthesis that opens the ports of a module. -/
  | portList (name : String)
  | portDirection
  /-- The range or the name of a port, where no data type may stand. -/
  | portType (direction : Direction)
  | portName (direction : Direction)
  /-- A comma or a closing parenthesis behind a port. -/
  | portSeparator
  | rangeBound
  | rangeColon
  | rangeClose
deriving DecidableEq

namespace Expectation

/-- The code of the diagnostic when the expectation is not met. -/
def code : Expectation → DiagnosticCode
  | parameterList | parameterName | parameterEquals _ | parameterSeparator => .badParameter
  | parameterValue _ => .badInteger
  | portList _ => .noPortList
  | portDirection | portType _ | portName _ | portSeparator => .badPort
  | rangeBound | rangeColon | rangeClose => .badRange

/-- The expectation in words. -/
def text : Expectation → String
  | parameterList => "expected '(' after '#' to open the parameter list"
  | parameterName => "expected parameter name"
  | parameterEquals parameter => "expected '=' after parameter '" ++ parameter ++ "'"
  | parameterValue parameter =>
    "value of parameter '" ++ parameter ++ "' is not an integer literal"
  | parameterSeparator => "expected ',' or ')' after parameter declaration"
  | portList name => "expected '(' to open the port list of module '" ++ name ++ "'"
  | portDirection => "expected port direction ('input', 'output' or 'inout')"
  | portType direction => "expected name of " ++ direction.text ++ " port"
  | portName direction => "expected name of " ++ direction.text ++ " port"
  | portSeparator => "expected ',' or ')' after port declaration"
  | rangeBound => "bit range bounds must be integer literals"
  | rangeColon => "expected ':' in bit range"
  | rangeClose => "expected ']' to close bit range"

/-- The advice when a token of a kind, or the end of the text, stands in place of what is
expected. -/
def hint? (expected : Expectation) (found : Option TokenKind) : Option String :=
  match expected with
  | rangeBound => some "parameterized widths such as [WIDTH-1:0] are not supported"
  | portType _ =>
    some ("only 'wire', 'reg' and 'logic' ports are supported; " ++
      "declare e.g. 'output logic [31:0] count'")
  | _ =>
    if found = some .blockCommentStart then
      some "block comments are not supported; use '//' line comments"
    else if expected = portDirection ∧ found = some .identifier then
      some ("only ANSI-style port lists are supported; " ++
        "declare ports as 'input wire [7:0] name'")
    else none

end Expectation

/-- A token in words: its kind, and its text where the kind does not tell it. -/
def Token.describe (t : Token) : String :=
  match t.kind with
  | .identifier | .integer | .basedInteger | .string | .directive | .invalid =>
    t.kind.name ++ " '" ++ t.text ++ "'"
  | kind => kind.name

/-- Why a text declares no module. -/
inductive Fault where
  /-- No header of a module stands in the text. -/
  | noHeader
  /-- Another token than the expected one, or the end of the text. -/
  | unexpected (expected : Expectation) (found : Option Token)
  /-- The text ends within a list that `opener` opened. -/
  | unclosed (list : HeaderList) (opener : Token)
  /-- The literal that a parameter is given has no value. -/
  | parameterLiteral (parameter : String) (literal : Token) (fault : LiteralFault)
  /-- The value of a parameter, from its first token on, goes on with the token `last`. -/
  | valueContinues (parameter : String) (first last : Token)
  /-- The literal of a range bound has no value. -/
  | boundLiteral (literal : Token) (fault : LiteralFault)
  /-- The high bound of a range is below the low one. -/
  | ascendingRange (opener closer : Token) (high low : Nat)
  /-- A range has more bits than a width can count. -/
  | wideRange (opener closer : Token) (high low : Nat)
  /-- No keyword ends the module. -/
  | noEnd (start name : Token)
deriving DecidableEq

/-- A range as it is written. -/
def rangeText (high low : Nat) : String := "[" ++ toString high ++ ":" ++ toString low ++ "]"

/-- The diagnostic for a fault in a text of `size` bytes. -/
def Fault.diagnostic (size : Nat) : Fault → Diagnostic
  | noHeader =>
    ⟨.noHeader, "cannot find a 'module <name>' declaration", Span.emptyAt 0,
      some "the text must contain 'module <name> (...); ... endmodule'", []⟩
  | unexpected expected (some token) =>
    ⟨expected.code, expected.text ++ ", found " ++ token.describe, token.span,
      expected.hint? (some token.kind), []⟩
  | unexpected expected none =>
    ⟨expected.code, expected.text ++ ", found end of text", Span.emptyAt size,
      expected.hint? none, []⟩
  | unclosed list opener =>
    ⟨.unclosedList, list.text ++ " is never closed", Span.emptyAt size,
      some "add ')' after the last declaration", [⟨list.text ++ " opened here", opener.span⟩]⟩
  | parameterLiteral parameter literal fault =>
    ⟨.badInteger, "value of parameter '" ++ parameter ++ "': " ++ fault.message literal.text,
      literal.span, none, []⟩
  | valueContinues parameter first last =>
    ⟨.badInteger, "value of parameter '" ++ parameter ++ "' must be a single integer literal",
      ⟨first.span.start, last.span.stop⟩,
      some "default values are not evaluated; write the resulting number", []⟩
  | boundLiteral literal fault =>
    ⟨.badInteger, fault.message literal.text, literal.span, none, []⟩
  | ascendingRange opener closer high low =>
    ⟨.badWidth, "bit range " ++ rangeText high low ++
        " is ascending; expected [high:low] with high >= low",
      opener.span.cover closer.span, some ("write " ++ rangeText low high), []⟩
  | wideRange opener closer high low =>
    ⟨.badWidth, "bit range " ++ rangeText high low ++ " is too wide",
      opener.span.cover closer.span, none, []⟩
  | noEnd start name =>
    ⟨.noEnd, "module '" ++ name.text ++ "' is never closed with 'endmodule'", Span.emptyAt size,
      none, [⟨"module declared here", start.span.cover name.span⟩]⟩

end HdlModule
