import HdlModule.Diagnostic
import HdlModule.Text.Duration
import HdlModule.Identifier.Validate

/-!
# Refused edits

Why an edit of a module or of an attribute is refused. Each reason can be shown as a title and a
message.

## Main definitions

* `Refusal`: the reasons
* `Refusal.title`, `Refusal.message`, `Refusal.severity`: how one is shown
-/

namespace HdlModule

/-- How firmly a text is refused: it is wrong, or the check of it could not be carried out. -/
inductive Severity where
  | error
  | abort
deriving DecidableEq

/-- Why a text is no value of an attribute. -/
inductive ValueFault where
  | notAnInteger
  | tooSmall
  | tooLarge
deriving DecidableEq

/-- The fault in words. -/
def ValueFault.text : ValueFault → String
  | notAnInteger => "not an integer"
  | tooSmall => "integer too small"
  | tooLarge => "integer too large"

/-- Why an edit is refused. -/
inductive Refusal where
  /-- The syntax check refused the text. -/
  | check (severity : Severity) (title detail : String)
  /-- The syntax check gave no answer in time. -/
  | checkTimeout (limit : Duration)
  /-- The text declares no module; `rendered` is the diagnostic with line and column. -/
  | parse (diagnostic : Diagnostic) (rendered : String)
  /-- A name is malformed, reserved or taken. -/
  | name (error : NameError)
  /-- A text is no value of an attribute. -/
  | value (text : String) (fault : ValueFault)
deriving DecidableEq

namespace Refusal

/-- The refusal of a text for a diagnostic. -/
def ofDiagnostic (d : Diagnostic) (source : String) : Refusal := parse d (d.render source)

/-- The title. -/
def title : Refusal → String
  | check _ title _ => title
  | checkTimeout _ => "Syntax check timed out"
  | parse _ _ => "Parse error"
  | name _ => "Invalid identifier"
  | value _ _ => "Invalid parameter value"

/-- The message below the title. -/
def message : Refusal → String
  | check _ _ detail => detail
  | checkTimeout limit => "syntax check did not finish within " ++ limit.text
  | parse _ rendered => rendered
  | name error => error.message
  | value text fault => "'" ++ text ++ "': " ++ fault.text

/-- The refusal on its own: the message, with the title in front where it comes from a syntax
check. -/
def text : Refusal → String
  | check _ title detail => title ++ ": " ++ detail
  | refusal => refusal.message

/-- The text of what lies behind the refusal, if it is a diagnostic or a refused name. -/
def source? : Refusal → Option String
  | parse d _ => some d.headline
  | name error => some error.message
  | _ => none

/-- How firmly the edit is refused. Only a syntax check may refuse less firmly than an error. -/
def severity : Refusal → Severity
  | check severity _ _ => severity
  | _ => .error

/-- The diagnostic behind the refusal. -/
def diagnostic? : Refusal → Option Diagnostic
  | parse d _ => some d
  | _ => none

end Refusal

end HdlModule
