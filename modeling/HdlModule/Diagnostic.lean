import HdlModule.Text.Lines

/-!
# Diagnostics

A diagnostic says what is wrong with a text, and where. It has a code, a message, a span, an
optional hint and related places. Its rendering against the text starts with the line and the
column, both counted from 1.

## Main definitions

* `DiagnosticCode`, `DiagnosticKind`: the codes, and the kinds into which they fall
* `Diagnostic`: a diagnostic; `Diagnostic.ofCode` one with only some of its parts given
* `Diagnostic.headline`, `Diagnostic.render`: its written forms
-/

namespace HdlModule

/-- The ways in which reading a module can fail. -/
inductive DiagnosticKind where
  | moduleNotFound
  | portDeclaration
  | unterminatedModule
  | malformedInteger
deriving DecidableEq

/-- A kind in words. -/
def DiagnosticKind.text : DiagnosticKind → String
  | moduleNotFound => "module not found"
  | portDeclaration => "port declaration error"
  | unterminatedModule => "unterminated module"
  | malformedInteger => "malformed integer literal"

/-- The codes of diagnostics. -/
inductive DiagnosticCode where
  | noHeader
  | noPortList
  | unclosedList
  | badPort
  | badParameter
  | badRange
  | noEnd
  | badInteger
  | badWidth
deriving DecidableEq

namespace DiagnosticCode

/-- All codes, in the order of their labels. -/
def all : List DiagnosticCode :=
  [noHeader, noPortList, unclosedList, badPort, badParameter, badRange, noEnd, badInteger, badWidth]

/-- The label of a code. Its first two digits say what it is about: 01 the header of the module,
02 its lists, 03 its body, 04 literals. -/
def label : DiagnosticCode → String
  | noHeader => "E0101"
  | noPortList => "E0201"
  | unclosedList => "E0202"
  | badPort => "E0203"
  | badParameter => "E0204"
  | badRange => "E0205"
  | noEnd => "E0301"
  | badInteger => "E0401"
  | badWidth => "E0402"

/-- The kind of failure that a code stands for. -/
def kind : DiagnosticCode → DiagnosticKind
  | noHeader => .moduleNotFound
  | noPortList | unclosedList | badPort | badParameter | badRange => .portDeclaration
  | noEnd => .unterminatedModule
  | badInteger | badWidth => .malformedInteger

/-- The message of a diagnostic that has no message of its own. -/
def defaultMessage : DiagnosticCode → String
  | noHeader => "cannot find module declaration"
  | noPortList => "missing port list"
  | unclosedList => "unclosed parenthesis"
  | badPort => "invalid port declaration"
  | badParameter => "invalid parameter declaration"
  | badRange => "unsupported bit range"
  | noEnd => "module is never closed with 'endmodule'"
  | badInteger => "invalid integer literal"
  | badWidth => "invalid bit range"

end DiagnosticCode

/-- A place that a diagnostic refers to besides its own. -/
structure RelatedPlace where
  message : String
  span : Span
deriving DecidableEq

/-- What is wrong with a text, and where. -/
structure Diagnostic where
  code : DiagnosticCode
  message : String
  span : Span
  hint? : Option String
  related : List RelatedPlace
deriving DecidableEq

namespace Diagnostic

/-- A diagnostic with the parts that are given. Without a message it has the one of its code,
without a span it stands at the start of the text. -/
def ofCode (code : DiagnosticCode) (message? : Option String) (span? : Option Span)
    (hint? : Option String) (related : List RelatedPlace) : Diagnostic :=
  ⟨code, message?.getD code.defaultMessage, span?.getD (Span.emptyAt 0), hint?, related⟩

/-- The diagnostic with another hint. -/
def withHint (d : Diagnostic) (hint : String) : Diagnostic := { d with hint? := some hint }

/-- The code and the message. -/
def headline (d : Diagnostic) : String := d.code.label ++ ": " ++ d.message

/-- The start of a span as `line:column`, both counted from 1. -/
def placeText (index : LineIndex) (span : Span) : String :=
  let position := index.position span.start
  toString (position.line + 1) ++ ":" ++ toString (position.column + 1)

/-- The diagnostic with lines and columns of the text that it is about. Related places and the
hint follow, each on an indented line. -/
def render (d : Diagnostic) (source : String) : String :=
  let index := LineIndex.ofText source
  let related := d.related.map fun r => "\n  " ++ placeText index r.span ++ ": " ++ r.message
  let hint :=
    match d.hint? with
    | some hint => "\n  hint: " ++ hint
    | none => ""
  placeText index d.span ++ ": " ++ d.headline ++ String.join related ++ hint

end Diagnostic

end HdlModule
