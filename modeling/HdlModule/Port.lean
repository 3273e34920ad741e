/-!
# Ports of a module

A port has a name, a direction, a kind of net and a width in bits. Its declaration is the text
that declares it in a port list, for instance `input wire [7:0] data`.

## Main definitions

* `Direction`, `NetKind`, `Width`: what a declaration says about a port
* `Port`: a port, and `Port.declaration` its declaration
-/

namespace HdlModule

/-- The direction of the signal at a port. -/
inductive Direction where
  | input
  | output
  | inout
deriving DecidableEq

/-- The keyword that declares a direction. -/
def Direction.text : Direction → String
  | .input => "input"
  | .output => "output"
  | .inout => "inout"

/-- The kind of net or variable at a port. -/
inductive NetKind where
  | wire
  | reg
  | logic
deriving DecidableEq

/-- The keyword that declares a kind of net. -/
def NetKind.text : NetKind → String
  | .wire => "wire"
  | .reg => "reg"
  | .logic => "logic"

/-- A width in bits: at least one, and a number of 32 bits. -/
structure Width where
  bits : Nat
  bits_pos : 0 < bits
  bits_lt : bits < UInt32.size
deriving DecidableEq

namespace Width

/-- The width of a port that is declared without a range. -/
def one : Width := ⟨1, by decide, by decide⟩

/-- The width of `n` bits, if there is one. -/
def ofBits? (n : Nat) : Option Width :=
  if h : 0 < n ∧ n < UInt32.size then some ⟨n, h.1, h.2⟩ else none

end Width

/-- A port of a module interface. -/
structure Port where
  name : String
  direction : Direction
  net : NetKind
  width : Width
deriving DecidableEq

/-- The declaration of a port. A port of one bit is declared without a range. -/
def Port.declaration (port : Port) : String :=
  let range :=
    if 1 < port.width.bits then " [" ++ toString (port.width.bits - 1) ++ ":0]" else ""
  port.direction.text ++ " " ++ port.net.text ++ range ++ " " ++ port.name

end HdlModule
