import HdlModule.Proofs.Grammar.Lookahead
import HdlModule.Proofs.Grammar.Rename

/-!
# Block comments in openings of modules

Block comments are not read. Where one starts in the opening of a module, from the keyword up to
the end of the port list, the text is refused, but for one place: what stands in the range of a
parameter is not looked at, so a block comment that starts there goes unseen.

## Main definitions

* `openingTokens source`: the tokens of the opening of the first module

## Main results

* `blockComment_openingTokens_iff`: in the opening of a module that is accepted, block comments
  start in ranges of parameters only
* `not_forall_openingTokens_ne_blockComment`: they do start there
-/

namespace HdlModule

/-- The tokens of the first module from its keyword up to the end of its port list, or none if
these cannot be read. -/
def openingTokens (source : String) : List Token :=
  match findHeader? none (significantTokens source) with
  | none => []
  | some (start, name, behind) =>
    match readOpening (significantTokens source) with
    | .error _ => []
    | .ok (_, rest) => start :: name :: behind.take (behind.length - rest.length)

section Opening

variable {source : String} {start name : Token} {params portList rest : List Token}
  {parameters : List Parameter} {ports : List Port}

/-- The opening of a module is its header with both lists. -/
theorem openingTokens_eq
    (hfound : findHeader? none (significantTokens source) =
      some (start, name, params ++ (portList ++ rest)))
    (hparameters : ParameterSection (params.map Token.toLexeme) parameters)
    (hports : PortSection (portList.map Token.toLexeme) ports) :
    openingTokens source = start :: name :: (params ++ portList) := by
  obtain ⟨hread, hread'⟩ := read_sections rest hparameters hports name.text
  have hopening : readOpening (significantTokens source) =
      .ok (⟨start, name, parameters, ports⟩, rest) := by
    simp only [readOpening, readHeader, hfound, bind_eq_ok]
    exact ⟨_, rfl, _, hread, _, hread', rfl⟩
  rw [openingTokens, hfound, hopening]
  dsimp only
  rw [← List.append_assoc, List.length_append, Nat.add_sub_cancel, List.take_left]

/-- A token of an opening is its keyword or its name, or of a kind that stands in lists, or it
stands in the range of a parameter. -/
theorem cases_of_mem_openingTokens {interface : Interface}
    (h : Interface.ofText source = .ok interface) {t : Token} (ht : t ∈ openingTokens source) :
    t.kind.isWord = true ∨ t.kind.standsInLists = true ∨
      InRange t.toLexeme ((parameterListTokens source).map Token.toLexeme) := by
  rw [Interface.ofText_eq_ok_iff_declares] at h
  obtain ⟨start, name, params, portList, rest, hfound, hparameters, hports, -⟩ := h.exists_parts
  rw [openingTokens_eq hfound hparameters hports] at ht
  rw [parameterListTokens_eq hfound hparameters hports]
  obtain ⟨hstart, hname⟩ := kinds_of_findHeader? hfound
  rcases List.mem_cons.1 ht with rfl | ht
  · exact Or.inl (by rw [hstart]; rfl)
  · rcases List.mem_cons.1 ht with rfl | ht
    · exact Or.inl hname
    · rcases List.mem_append.1 ht with ht | ht
      · exact Or.inr (hparameters.placed _ (List.mem_map_of_mem ht))
      · exact Or.inr (Or.inl (hports.inLists _ (List.mem_map_of_mem ht)))

/-- **Block comments in an opening start in ranges of parameters only**: no block comment starts
in the opening of a module that is accepted if and only if none starts in the range of a
parameter. -/
theorem blockComment_openingTokens_iff (source : String) (interface : Interface)
    (h : Interface.ofText source = .ok interface) :
    (∀ t ∈ openingTokens source, t.kind ≠ .blockCommentStart) ↔
      ∀ l, InRange l ((parameterListTokens source).map Token.toLexeme) →
        l.kind ≠ .blockCommentStart := by
  constructor
  · intro hnone l hrange
    have hdeclares := (Interface.ofText_eq_ok_iff_declares _ _).1 h
    obtain ⟨start, name, params, portList, rest, hfound, hparameters, hports, -⟩ :=
      hdeclares.exists_parts
    rw [openingTokens_eq hfound hparameters hports] at hnone
    rw [parameterListTokens_eq hfound hparameters hports] at hrange
    obtain ⟨t, ht, rfl⟩ := List.mem_map.1 hrange.mem
    exact hnone t (.tail _ (.tail _ (List.mem_append_left _ ht)))
  · intro hnone t ht hkind
    rcases cases_of_mem_openingTokens h ht with hword | hstands | hrange
    · rw [hkind] at hword
      cases hword
    · rw [hkind] at hstands
      cases hstands
    · exact hnone _ hrange hkind

end Opening

/-- A block comment behind the port list of a module whose parameter has a range. -/
theorem blockComment_openingTokens_iff_body :
    Interface.ofText "module A #(parameter [W-1:0] N = 1) (); /* ( */ endmodule" =
        .ok ⟨"A", ⟨7, 8⟩, [], [⟨"N", some "[W-1:0]", 1⟩]⟩ ∧
      ∀ l, InRange l ((parameterListTokens
          "module A #(parameter [W-1:0] N = 1) (); /* ( */ endmodule").map Token.toLexeme) →
        l.kind ≠ .blockCommentStart := by
  have hread : Interface.ofText "module A #(parameter [W-1:0] N = 1) (); /* ( */ endmodule" =
      .ok ⟨"A", ⟨7, 8⟩, [], [⟨"N", some "[W-1:0]", 1⟩]⟩ := by
    decide +kernel
  exact ⟨hread, (blockComment_openingTokens_iff _ _ hread).1 (by decide +kernel)⟩

/-- The range of a parameter may hold the start of a block comment. -/
theorem not_forall_openingTokens_ne_blockComment :
    ¬∀ source interface, Interface.ofText source = .ok interface →
      ∀ t ∈ openingTokens source, t.kind ≠ .blockCommentStart := by
  intro hall
  have hread : Interface.ofText "module A #(parameter [/*] N = 1) (); endmodule" =
      .ok ⟨"A", ⟨7, 8⟩, [], [⟨"N", some "[/*]", 1⟩]⟩ := by
    decide +kernel
  exact hall _ _ hread ⟨⟨.blockCommentStart, "/*".toList⟩, 22⟩ (by decide +kernel) rfl

end HdlModule
