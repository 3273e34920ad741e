import HdlModule.Content.Basic
import HdlModule.Text.Quoted

/-!
# Summaries of contents

A content on one line, for people who look into a design.

## Main definitions

* `Content.summary`: the name, the state, the ports, the parameters and the appearance
* `Environment.summary`: the settings
-/

namespace HdlModule

/-- The name of an appearance. -/
def Appearance.text : Appearance → String
  | classic => "classic"
  | evolution => "evolution"
  | fpga => "fpga"

/-- The name of an appearance in a summary. -/
def Appearance.summary : Appearance → String
  | classic => "Classic"
  | evolution => "Evolution"
  | fpga => "Fpga"

/-- The name of a direction in a summary. -/
def Direction.summary : Direction → String
  | input => "Input"
  | output => "Output"
  | inout => "Inout"

/-- The name of a kind of net in a summary. -/
def NetKind.summary : NetKind → String
  | wire => "Wire"
  | reg => "Reg"
  | logic => "Logic"

/-- The items of a list in a summary. -/
def listSummary (items : List String) : String := "[" ++ ", ".intercalate items ++ "]"

/-- The summary of a port. -/
def Port.summary (p : Port) : String :=
  "PortDescriptor \x7b name: " ++ quoted p.name ++ ", direction: " ++ p.direction.summary ++
    ", net: " ++ p.net.summary ++ ", width: " ++ toString p.width.bits ++ " \x7d"

/-- The summary of a parameter. -/
def Parameter.summary (p : Parameter) : String :=
  let style :=
    match p.type? with
    | some type => "Typed \x7b ty: " ++ quoted type ++ " \x7d"
    | none => "Untyped"
  "ParameterDescriptor \x7b name: " ++ quoted p.name ++ ", style: " ++ style ++
    ", default_value: " ++ toString p.default.toInt ++ " \x7d"

/-- The summary of a handle. -/
def Handle.summary (h : Handle) : String := "AttributeHandle(#" ++ toString h.number ++ ")"

/-- The summary of a content. The text, the last refusal and the listeners are left out. -/
def Content.summary (c : Content) : String :=
  let parameters := c.parameters.map fun entry =>
    "(" ++ entry.1.summary ++ ", " ++ entry.2.summary ++ ")"
  "ModuleContent \x7b name: " ++ quoted c.name ++
    ", valid: " ++ (if c.isValid then "true" else "false") ++
    ", ports: " ++ listSummary (c.ports.map Port.summary) ++
    ", parameters: " ++ listSummary parameters ++
    ", appearance: " ++ c.appearance.summary ++ ", .. \x7d"

/-- The summary of an environment. The checker and the names are left out. -/
def Environment.summary (env : Environment) : String :=
  "ContentContext \x7b config: " ++ env.settings.text ++ ", .. \x7d"

end HdlModule
