import HdlModule.Refusal
import HdlModule.Text.Replace

/-!
# Syntax checks

Before a text is read, an outside checker may be asked about it. The checker accepts the text or
refuses it; it may also stop without an answer, or keep silent. A check with a limit runs beside the
edit, which then refuses the text and goes on. A check without a limit runs in the place of the
edit: if the one does not come back, neither does the other.

## Main definitions

* `CheckAnswer`, `Checker`: what a checker does with a text
* `judge`: what follows from it, if the check comes to an end
* `Checker.ofRules`: a checker that looks for given pieces of text
-/

namespace HdlModule

/-- What a checker does with a text. -/
inductive CheckAnswer where
  | accepted
  | refused (severity : Severity) (title detail : String)
  /-- The checker ends without an answer. -/
  | stopped
  /-- The checker gives no answer within any time. -/
  | silent
deriving DecidableEq

/-- A checker answers to texts. -/
abbrev Checker := String → CheckAnswer

/-- The refusal of a text whose checker ended without an answer. -/
def checkerStopped : Refusal :=
  .check .error "Syntax check failed" "the syntax checker stopped without reporting a result"

/-- What follows from the answer of a checker. With a limit the edit waits no longer than that, and
it notices if the checker stops. Without a limit the checker is asked inline: if it stops or keeps
silent, so does the edit, and nothing follows. -/
def judge (limit? : Option Duration) : CheckAnswer → Option (Except Refusal Unit)
  | .accepted => some (.ok ())
  | .refused severity title detail => some (.error (.check severity title detail))
  | .stopped => limit?.map fun _ => .error checkerStopped
  | .silent => limit?.map fun limit => .error (.checkTimeout limit)

/-- A rule of a checker: the answer to texts that hold a piece of text. -/
structure CheckRule where
  piece : String
  answer : CheckAnswer
deriving DecidableEq

/-- The checker that answers by the first rule whose piece occurs in the text, and accepts texts
to which no rule applies. -/
def Checker.ofRules (rules : List CheckRule) : Checker := fun text =>
  match rules.find? fun rule => occursIn rule.piece.toList text.toList with
  | some rule => rule.answer
  | none => .accepted

end HdlModule
