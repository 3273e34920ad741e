import HdlModule.Parameter
import HdlModule.Port
import HdlModule.Text.Span

/-!
# Module interfaces

What the outside of a module is: its name, its parameters and its ports, in the order in which
they are declared.

## Main definitions

* `Interface`: the interface of a module, with the place of the name in the text
* `portNames`: the names of the ports of one direction
-/

namespace HdlModule

/-- The interface of a module as declared in a text. -/
structure Interface where
  name : String
  /-- Where the name stands in the text. -/
  nameSpan : Span
  ports : List Port
  parameters : List Parameter
deriving DecidableEq

/-- The names of the ports of one direction, in order. -/
def portNames (direction : Direction) (ports : List Port) : List String :=
  (ports.filter (·.direction = direction)).map (·.name)

end HdlModule
