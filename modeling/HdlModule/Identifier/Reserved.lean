import HdlModule.Search

/-!
# Reserved keywords

The words of SystemVerilog that cannot be names, in alphabetical order, and the letter case in
which they are shown. Words are compared without regard to ASCII case.

## Main definitions

* `reservedKeywords`: the table
* `isReserved`: whether a word is found in the table, whatever its case
* `KeywordCase`: lower or upper case, for keywords in messages and templates
-/

namespace HdlModule

/-- The reserved words, in alphabetical order and in lower case. -/
def reservedKeywords : List String :=
  ["alias", "always", "always_comb", "always_ff", "always_latch", "and", "assert", "assign",
    "assume", "automatic", "before", "begin", "bind", "bins", "binsof", "bit", "break", "buf",
    "bufif0", "bufif1", "byte", "case", "casex", "casez", "cell", "chandle", "checker", "class",
    "clocking", "cmos", "config", "const", "constraint", "context", "continue", "cover",
    "covergroup", "coverpoint", "cross", "deassign", "default", "defparam", "design", "disable",
    "dist", "do", "edge", "else", "end", "endcase", "endchecker", "endclass", "endclocking",
    "endconfig", "endfunction", "endgenerate", "endgroup", "endinterface", "endmodule",
    "endpackage", "endprimitive", "endprogram", "endproperty", "endsequence", "endspecify",
    "endtable", "endtask", "enum", "event", "expect", "export", "extends", "extern", "final", "for",
    "force", "foreach", "forever", "fork", "function", "generate", "genvar", "if", "iff", "import",
    "initial", "inout", "input", "inside", "instance", "int", "integer", "interface", "join",
    "join_any", "join_none", "library", "localparam", "logic", "longint", "macromodule", "modport",
    "module", "nand", "negedge", "new", "nor", "not", "null", "or", "output", "package", "packed",
    "parameter", "posedge", "primitive", "priority", "program", "property", "protected", "pure",
    "rand", "randc", "real", "realtime", "ref", "reg", "release", "repeat", "return", "sequence",
    "shortint", "shortreal", "signed", "specify", "specparam", "static", "string", "struct",
    "super", "supply0", "supply1", "table", "task", "this", "time", "tri", "type", "typedef",
    "union", "unique", "unsigned", "use", "var", "virtual", "void", "wait", "wand", "while", "wire",
    "with", "wor", "xnor", "xor"]

/-- Whether a word is reserved, whatever the ASCII case of its letters. The table is searched for
the word in lower case. -/
def isReserved (word : String) : Bool :=
  (binarySearch reservedKeywords.toArray word.toLower).isOk

/-- The letter case in which keywords are shown. -/
inductive KeywordCase where
  | lower
  | upper
deriving DecidableEq

namespace KeywordCase

/-- A keyword in this case. Only ASCII letters change. -/
def apply : KeywordCase → String → String
  | .lower, word => word.toLower
  | .upper, word => word.toUpper

/-- The reserved words in this case, in alphabetical order. -/
def keywords (shown : KeywordCase) : List String := reservedKeywords.map shown.apply

end KeywordCase

end HdlModule
