import HdlModule.Interface.ParameterList
import HdlModule.Interface.PortList

/-!
# Reading the interface of a module

The interface is that of the first module that a text defines. Behind the port list nothing is
read but the keyword that ends the module, so the body may hold what it likes. A text with a
fault has no interface at all.

## Main definitions

* `Interface.ofTokens`: the interface that significant tokens declare
* `Interface.ofText`: the interface that a text declares, or the diagnostic of its fault
-/

namespace HdlModule

namespace Interface

/-- The interface that significant tokens declare. -/
def ofTokens (ts : List Token) : Except Fault Interface :=
  match findHeader? none ts with
  | none => .error .noHeader
  | some (start, name, ts) => do
    let (parameters, ts) ← readParameterList ts
    let (ports, ts) ← readPortList name.text ts
    if ts.any (·.kind = .keyword .moduleEnd) then
      return ⟨name.text, name.span, ports, parameters⟩
    else .error (.noEnd start name)

/-- The interface of the first module that a text defines. -/
def ofText (source : String) : Except Diagnostic Interface :=
  match ofTokens (significantTokens source) with
  | .ok interface => .ok interface
  | .error fault => .error (fault.diagnostic (byteLength source.toList))

/-- Outcomes of reading can be compared. -/
instance decidableEqOutcome : DecidableEq (Except Diagnostic Interface)
  | .ok i, .ok i' => decidable_of_iff (i = i') ⟨congrArg _, Except.ok.inj⟩
  | .error d, .error d' => decidable_of_iff (d = d') ⟨congrArg _, Except.error.inj⟩
  | .ok _, .error _ => .isFalse nofun
  | .error _, .ok _ => .isFalse nofun

end Interface

end HdlModule
