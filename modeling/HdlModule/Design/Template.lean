import HdlModule.Identifier.Reserved
import HdlModule.Text.Replace

/-!
# Templates of new modules

The text that a new module starts with. A template holds a placeholder for the name of the
module.

## Main definitions

* `namePlaceholder`: what stands for the name
* `builtinTemplate`: the template of a module without ports and parameters
* `renderTemplate`: a template with the name in it
-/

namespace HdlModule

/-- What stands for the name of the module in a template. -/
def namePlaceholder : String := "%modulename%"

/-- The template that is used where none is configured, with its keywords in a case. -/
def builtinTemplate (shown : KeywordCase) : String :=
  let input := shown.apply "input"
  let output := shown.apply "output"
  let wire := shown.apply "wire"
  shown.apply "module" ++ " " ++ namePlaceholder ++ " (\n" ++
    "    // " ++ input ++ "  " ++ wire ++ " [7:0] a,\n" ++
    "    // " ++ output ++ " " ++ wire ++ "       y\n" ++
    ");\n\n" ++ shown.apply "endmodule" ++ "\n"

/-- A template, or the built-in one, with the name in place of each placeholder. -/
def renderTemplate (template? : Option String) (name : String) (shown : KeywordCase) : String :=
  let template := template?.getD (builtinTemplate shown)
  String.ofList (replaceAll namePlaceholder.toList name.toList template.toList)

end HdlModule
