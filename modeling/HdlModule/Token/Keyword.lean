import HdlModule.Port

/-!
# Keywords of module headers

The keywords that a module header is read with. They are recognised in any ASCII case.

## Main definitions

* `Keyword`: the keywords, grouped by what they say
* `Keyword.ofWord?`: the keyword that a word spells
-/

namespace HdlModule

/-- Whether a value or a port has a sign. -/
inductive Signedness where
  | signed
  | unsigned
deriving DecidableEq

/-- The data types of parameters other than `reg` and `logic`. -/
inductive IntegerType where
  | int
  | integer
  | bit
  | byte
  | shortint
  | longint
deriving DecidableEq

/-- The keywords of module headers. -/
inductive Keyword where
  | moduleStart
  | moduleEnd
  | prototype
  | parameter
  | direction (direction : Direction)
  | net (net : NetKind)
  | sign (sign : Signedness)
  | integerType (type : IntegerType)
deriving DecidableEq

namespace Keyword

/-- A keyword in lower case. -/
def text : Keyword → String
  | moduleStart => "module"
  | moduleEnd => "endmodule"
  | prototype => "extern"
  | parameter => "parameter"
  | direction d => d.text
  | net n => n.text
  | sign .signed => "signed"
  | sign .unsigned => "unsigned"
  | integerType .int => "int"
  | integerType .integer => "integer"
  | integerType .bit => "bit"
  | integerType .byte => "byte"
  | integerType .shortint => "shortint"
  | integerType .longint => "longint"

/-- All keywords. -/
def all : List Keyword :=
  [moduleStart, moduleEnd, prototype, parameter, direction .input, direction .output,
    direction .inout, net .wire, net .reg, net .logic, sign .signed, sign .unsigned,
    integerType .int, integerType .integer, integerType .bit, integerType .byte,
    integerType .shortint, integerType .longint]

/-- The keyword that the characters spell, whatever the ASCII case of its letters. -/
def ofWord? (word : List Char) : Option Keyword :=
  all.find? fun k => k.text == String.ofList (word.map Char.toLower)

end Keyword

end HdlModule
