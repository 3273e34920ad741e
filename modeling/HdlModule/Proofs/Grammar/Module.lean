import HdlModule.Interface.Read
import HdlModule.Proofs.Grammar.ParameterList
import HdlModule.Proofs.Grammar.PortList

/-!
# The grammar of modules

A text declares an interface if its significant tokens are some tokens, the first header of a
module, a parameter list, a port list, and tokens among which one ends the module. What stands in
front of the header and behind the port list is not looked at otherwise.

## Main definitions

* `Declares ts interface`: the tokens declare the interface

## Main results

* `ofTokens_eq_ok_iff`: `Interface.ofTokens` reads the interface that the tokens declare
* `ofText_eq_ok_iff_declares`: a text is accepted exactly if it is in the grammar, with the
  meaning that the grammar gives it
-/

namespace HdlModule

/-- The tokens declare the interface. -/
inductive Declares : List Token → Interface → Prop
  | mk {pre params portList rest : List Token} {start name : Token} {ports : List Port}
      {parameters : List Parameter}
      (hheader : FirstHeader none
        ((pre ++ start :: name :: (params ++ (portList ++ rest))).map (·.kind)) pre.length)
      (hparameters : ParameterSection (params.map Token.toLexeme) parameters)
      (hports : PortSection (portList.map Token.toLexeme) ports)
      (hend : ∃ t ∈ rest, t.kind = .keyword .moduleEnd) :
      Declares (pre ++ start :: name :: (params ++ (portList ++ rest)))
        ⟨name.text, name.span, ports, parameters⟩

/-- A port list opens with a parenthesis, so a missing parameter list is told by it. -/
theorem PortSection.nextNot_hash {ls : List Lexeme} {ports : List Port} {used rest : List Token}
    (h : PortSection ls ports) (hls : used.map Token.toLexeme = ls) :
    NextNot (· = .hash) (used ++ rest) := by
  cases h with
  | empty hopener =>
    obtain ⟨opener, tail, rfl, rfl, -⟩ := List.map_eq_cons_iff.1 hls
    exact nextNot_cons.2 (by simp [hopener])
  | list hopener =>
    obtain ⟨opener, tail, rfl, rfl, -⟩ := List.map_eq_cons_iff.1 hls
    exact nextNot_cons.2 (by simp [hopener])

section Parts

variable {ts params portList rest : List Token} {start name : Token} {ports : List Port}
  {parameters : List Parameter} {interface : Interface}

/-- Tokens declare what stands behind the header that is found. -/
theorem Declares.of_findHeader?
    (hfound : findHeader? none ts = some (start, name, params ++ (portList ++ rest)))
    (hparameters : ParameterSection (params.map Token.toLexeme) parameters)
    (hports : PortSection (portList.map Token.toLexeme) ports)
    (hend : ∃ t ∈ rest, t.kind = .keyword .moduleEnd) :
    Declares ts ⟨name.text, name.span, ports, parameters⟩ := by
  obtain ⟨pre, rfl, hheader⟩ := findHeader?_eq_some_iff.1 hfound
  exact .mk hheader hparameters hports hend

/-- The header of tokens that declare an interface is found, with the parts behind it. -/
theorem Declares.exists_parts (h : Declares ts interface) :
    ∃ start name params portList rest,
      findHeader? none ts = some (start, name, params ++ (portList ++ rest)) ∧
      ParameterSection (params.map Token.toLexeme) interface.parameters ∧
      PortSection (portList.map Token.toLexeme) interface.ports ∧
      (∃ t ∈ rest, t.kind = .keyword .moduleEnd) ∧
      interface = ⟨name.text, name.span, interface.ports, interface.parameters⟩ := by
  cases h with
  | mk hheader hparameters hports hend =>
    exact ⟨_, _, _, _, _, findHeader?_of_firstHeader rfl hheader, hparameters, hports, hend, rfl⟩

/-- The lists of a module are read one after the other. -/
theorem read_sections (rest : List Token)
    (hparameters : ParameterSection (params.map Token.toLexeme) parameters)
    (hports : PortSection (portList.map Token.toLexeme) ports) (name : String) :
    readParameterList (params ++ (portList ++ rest)) = .ok (parameters, portList ++ rest) ∧
      readPortList name (portList ++ rest) = .ok (ports, rest) := by
  have hnext : NextNot (· = .hash) (portList ++ rest) := hports.nextNot_hash rfl
  exact ⟨readParameterList_append hparameters rfl hnext, readPortList_append hports rfl⟩

end Parts

namespace Interface

variable {ts : List Token} {interface : Interface}

/-- What is read from tokens is what they declare. -/
theorem declares_of_ofTokens (h : ofTokens ts = .ok interface) : Declares ts interface := by
  unfold ofTokens at h
  split at h
  · cases h
  · next start name tail hfound =>
    simp only [bind_eq_ok] at h
    obtain ⟨⟨parameters, tail₁⟩, hread, ⟨ports, rest⟩, hread₁, h⟩ := h
    obtain ⟨params, rfl, hparameters⟩ := exists_parameterSection hread
    obtain ⟨portList, hportList, hports⟩ := exists_portSection hread₁
    obtain rfl : tail₁ = portList ++ rest := hportList
    split at h
    · next hend =>
      cases h
      exact .of_findHeader? hfound hparameters hports (by simpa using hend)
    · cases h

/-- What tokens declare is read from them. -/
theorem ofTokens_of_declares (h : Declares ts interface) : ofTokens ts = .ok interface := by
  obtain ⟨start, name, params, portList, rest, hfound, hparameters, hports, hend, hinterface⟩ :=
    h.exists_parts
  obtain ⟨hread, hread₁⟩ := read_sections rest hparameters hports name.text
  have hend : rest.any (·.kind = .keyword .moduleEnd) = true := by simpa using hend
  simp only [ofTokens, hfound, bind_eq_ok]
  refine ⟨(interface.parameters, portList ++ rest), hread, (interface.ports, rest), hread₁, ?_⟩
  simp only [hend, if_true]
  rw [hinterface]
  rfl

/-- The interface of tokens is the one that they declare. -/
theorem ofTokens_eq_ok_iff : ofTokens ts = .ok interface ↔ Declares ts interface :=
  ⟨declares_of_ofTokens, ofTokens_of_declares⟩

/-- A text has an interface if its significant tokens have one. -/
theorem ofText_eq_ok_iff_ofTokens {source : String} :
    ofText source = .ok interface ↔ ofTokens (significantTokens source) = .ok interface := by
  unfold ofText
  cases ofTokens (significantTokens source) <;> simp

/-- **The reader accepts exactly its grammar and computes its meaning**: an interface is read from
a text if and only if the significant tokens of the text declare it. -/
theorem ofText_eq_ok_iff_declares (source : String) (interface : Interface) :
    ofText source = .ok interface ↔ Declares (significantTokens source) interface := by
  rw [ofText_eq_ok_iff_ofTokens, ofTokens_eq_ok_iff]

end Interface

end HdlModule
