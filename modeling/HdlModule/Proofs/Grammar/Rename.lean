import HdlModule.Proofs.Grammar.Kinds
import HdlModule.Proofs.LegalName

/-!
# Renaming and interfaces

The search for a header decides by kinds, and renaming keeps these, so the first module of a
renamed text is that of the text. Its name is exchanged if it is the old name but for case. If its
parameter list has no keyword that starts or ends a module, then nothing else in its interface
changes. Without that condition a name could be exchanged in the range of a parameter.

## Main definitions

* `declaredName? text`: the word that names the first module
* `parameterListTokens text`: the tokens of its parameter list

## Main results

* `declaredName?_renameModule`: the word that names the first module of a renamed text
* `ofText_renameModule`: the interface of a renamed text
-/

namespace HdlModule

/-- The word that names the first module that is no prototype. -/
def declaredName? (text : String) : Option String :=
  (findHeader? none (significantTokens text)).map fun header => header.2.1.text

/-- The tokens of the parameter list of the first module, or none if it cannot be read. -/
def parameterListTokens (text : String) : List Token :=
  match findHeader? none (significantTokens text) with
  | none => []
  | some (_, _, behind) =>
    match readParameterList behind with
    | .error _ => []
    | .ok (_, rest) => behind.take (behind.length - rest.length)

/-! ### The header of a renamed text -/

section Header

variable {old new : List Char} {ts ts' : List Token}

/-- **Renaming commutes with the search for a header.** -/
theorem findHeader?_renameLexemes (before : Option TokenKind) {place : NamePlace}
    (h : ts'.map Token.toLexeme = renameLexemes old new place (ts.map Token.toLexeme)) :
    (findHeader? before ts').map (fun header =>
        (header.2.1.toLexeme, header.2.2.map Token.toLexeme)) =
      (findHeader? before ts).map fun header =>
        (renameLexeme old new .behindStart header.2.1.toLexeme,
          renameLexemes old new (NamePlace.behindStart.next header.2.1.kind)
            (header.2.2.map Token.toLexeme)) := by
  fun_induction findHeader? before ts generalizing ts' place with
  | case1 before start name rest hat =>
    simp only [List.map_cons, renameLexemes_cons] at h
    obtain ⟨start', tail, rfl, hstart, htail⟩ := List.map_eq_cons_iff.1 h
    obtain ⟨name', rest', rfl, hname, hrest⟩ := List.map_eq_cons_iff.1 htail
    have hstartKind : start'.kind = start.kind := by
      rw [hstart, kind_renameLexeme]
    have hnameKind : name'.kind = name.kind := by
      rw [hname, kind_renameLexeme]
    have hplace : place.next start.kind = .behindStart := by
      rw [hat.1]
      rfl
    rw [hplace] at hname hrest
    rw [findHeader?, if_pos (by rw [hstartKind, hnameKind]; exact hat)]
    simp only [Option.map_some, hname, hrest]
  | case2 before start name rest hat ih =>
    rw [List.map_cons, renameLexemes_cons] at h
    obtain ⟨start', tail, rfl, hstart, htail⟩ := List.map_eq_cons_iff.1 h
    have hstartKind : start'.kind = start.kind := by
      rw [hstart, kind_renameLexeme]
    -- the kinds decide, so no header stands here in the renamed text either
    have hrest := ih htail
    rw [List.map_cons, renameLexemes_cons] at htail
    obtain ⟨name', rest', rfl, hname, -⟩ := List.map_eq_cons_iff.1 htail
    have hnameKind : name'.kind = name.kind := by
      rw [hname, kind_renameLexeme]
    rw [findHeader?, if_neg (by rw [hstartKind, hnameKind]; exact hat), hstartKind, hrest]
  | case3 ts before hshort =>
    rcases ts with _ | ⟨t, _ | ⟨t', tail⟩⟩
    · obtain rfl := List.map_eq_nil_iff.1 h
      rfl
    · rw [List.map_cons, renameLexemes_cons] at h
      obtain ⟨s, tail, rfl, -, htail⟩ := List.map_eq_cons_iff.1 h
      obtain rfl := List.map_eq_nil_iff.1 htail
      rfl
    · exact absurd rfl (hshort _ _ _)

/-- The header of a renamed text. -/
theorem exists_findHeader?_renameModule {text new : String} (old : String) {start name : Token}
    {rest : List Token} (hnew : SpellsIdentifier new.toList)
    (h : findHeader? none (significantTokens text) = some (start, name, rest)) :
    ∃ start' name' rest',
      findHeader? none (significantTokens (renameModule text old new)) =
        some (start', name', rest') ∧
      name'.toLexeme = renameLexeme old.toList new.toList .behindStart name.toLexeme ∧
      rest'.map Token.toLexeme =
        renameLexemes old.toList new.toList (NamePlace.behindStart.next name.kind)
          (rest.map Token.toLexeme) := by
  have hcommutes := findHeader?_renameLexemes none (map_toLexeme_renameModule text old new hnew)
  rw [h] at hcommutes
  obtain ⟨⟨start', name', rest'⟩, hfound, hheader⟩ := Option.map_eq_some_iff.1 hcommutes
  obtain ⟨hname, hrest⟩ := Prod.mk.inj hheader
  exact ⟨start', name', rest', hfound, hname, hrest⟩

/-- The name of a header is a word of the text. -/
theorem kind_of_findHeader? {text : String} {start name : Token} {rest : List Token}
    (h : findHeader? none (significantTokens text) = some (start, name, rest)) :
    name.kind = wordKind name.chars := by
  obtain ⟨pre, hts, -⟩ := findHeader?_eq_some_iff.1 h
  have hmem : name.toLexeme ∈ (significantTokens text).map Token.toLexeme := by
    rw [hts]
    simp
  rw [map_toLexeme_significantTokens] at hmem
  exact kind_eq_wordKind (List.mem_filter.1 hmem).1 (kinds_of_findHeader? h).2

/-- **The name of the first module is exchanged** if it is the old name but for case. A keyword is
no name. -/
theorem declaredName?_renameModule (text old new : String) (hnew : SpellsIdentifier new.toList) :
    declaredName? (renameModule text old new) =
      (declaredName? text).map fun word =>
        if wordKind word.toList = .identifier ∧ equalIgnoringCase word.toList old.toList then new
        else word := by
  unfold declaredName?
  cases hfound : findHeader? none (significantTokens text) with
  | none =>
    have hcommutes := findHeader?_renameLexemes none (map_toLexeme_renameModule text old new hnew)
    rw [hfound] at hcommutes
    rw [Option.map_eq_none_iff.1 hcommutes]
    rfl
  | some header =>
    obtain ⟨start, name, rest⟩ := header
    obtain ⟨start', name', rest', hfound', hname, -⟩ :=
      exists_findHeader?_renameModule old hnew hfound
    rw [hfound', Option.map_some, Option.map_some, Option.map_some, Option.some.injEq]
    show name'.toLexeme.text = _
    rw [hname, text_renameLexeme_behindStart, kind_of_findHeader? hfound, Token.text, Lexeme.text,
      String.toList_ofList]

/-- A legal name of a module is an identifier of the text. -/
theorem kind_of_legalName {text : String} {start name : Token} {rest : List Token}
    (h : findHeader? none (significantTokens text) = some (start, name, rest))
    (hlegal : LegalName name.text) : name.kind = .identifier := by
  obtain ⟨_, _, _, -, -, hkind⟩ := hlegal.spellsIdentifier
  rw [kind_of_findHeader? h]
  simpa [Token.text, Lexeme.text] using hkind

end Header

/-! ### Port lists start and end no module -/

/-- No keyword that starts or ends a module stands in lists. -/
theorem TokenKind.delimitsModule_of_standsInLists {k : TokenKind} (h : k.standsInLists = true) :
    k.delimitsModule = false := by
  refine Bool.eq_false_iff.2 fun hk => ?_
  simp only [delimitsModule, Bool.or_eq_true, decide_eq_true_eq] at hk
  rcases hk with rfl | rfl
  · cases h
  · cases h

/-- **No module starts or ends in a port list.** -/
theorem PortSection.undelimited {ls : List Lexeme} {ports : List Port} (h : PortSection ls ports) :
    ∀ l ∈ ls, l.kind.delimitsModule = false :=
  fun l hl => TokenKind.delimitsModule_of_standsInLists (h.inLists l hl)

/-! ### The interface of a renamed text -/

/-- The tokens of the parameter list are those between the name and the ports. -/
theorem parameterListTokens_eq {text : String} {start name : Token}
    {params portList rest : List Token} {parameters : List Parameter} {ports : List Port}
    (hfound : findHeader? none (significantTokens text) =
      some (start, name, params ++ (portList ++ rest)))
    (hparameters : ParameterSection (params.map Token.toLexeme) parameters)
    (hports : PortSection (portList.map Token.toLexeme) ports) :
    parameterListTokens text = params := by
  obtain ⟨hread, -⟩ := read_sections rest hparameters hports name.text
  simp only [parameterListTokens, hfound, hread]
  rw [List.length_append, Nat.add_sub_cancel, List.take_left]

/-- The name of an interface is the word that names the first module. -/
theorem declaredName?_of_ofText {text : String} {i : Interface}
    (h : Interface.ofText text = .ok i) : declaredName? text = some i.name := by
  rw [Interface.ofText_eq_ok_iff_ofTokens, Interface.ofTokens_eq_ok_iff] at h
  obtain ⟨start, name, params, portList, rest, hfound, -, -, -, hi⟩ := h.exists_parts
  rw [declaredName?, hfound, hi]
  rfl

/-- Behind the name of a renamed module both lists stay as they are, and of what follows the
kinds. -/
theorem exists_sections_of_renamed {old new : List Char} {params portList rest behind : List Token}
    {ports : List Port} (hparams : ∀ t ∈ params, t.kind.delimitsModule = false)
    (hports : PortSection (portList.map Token.toLexeme) ports)
    (h : behind.map Token.toLexeme = renameLexemes old new .elsewhere
      ((params ++ (portList ++ rest)).map Token.toLexeme)) :
    ∃ params' portList' rest', behind = params' ++ (portList' ++ rest') ∧
      params'.map Token.toLexeme = params.map Token.toLexeme ∧
      portList'.map Token.toLexeme = portList.map Token.toLexeme ∧
      rest'.map (·.kind) = rest.map (·.kind) := by
  have hundelimited : ∀ l ∈ params.map Token.toLexeme, l.kind.delimitsModule = false := by
    intro l hl
    obtain ⟨t, ht, rfl⟩ := List.mem_map.1 hl
    exact hparams t ht
  rw [List.map_append, renameLexemes_append_of_forall hundelimited, List.map_append,
    renameLexemes_append_of_forall hports.undelimited] at h
  obtain ⟨params', tail, rfl, hparams', htail⟩ := List.map_eq_append_iff.1 h
  obtain ⟨portList', rest', rfl, hportList', hrest'⟩ := List.map_eq_append_iff.1 htail
  refine ⟨params', portList', rest', rfl, hparams', hportList', ?_⟩
  have hkinds := congrArg (List.map Lexeme.kind) hrest'
  rw [map_kind_renameLexemes, List.map_map, List.map_map] at hkinds
  exact hkinds

/-- **Renaming changes the name and nothing else** in the interface of a text, and where the name
stands. -/
theorem ofText_renameModule {text new : String} {i : Interface} (h : Interface.ofText text = .ok i)
    (hlegal : LegalName i.name) (hnew : SpellsIdentifier new.toList)
    (hlist : ∀ t ∈ parameterListTokens text, t.kind.delimitsModule = false) :
    ∃ span, Interface.ofText (renameModule text i.name new) =
      .ok { i with name := new, nameSpan := span } := by
  rw [Interface.ofText_eq_ok_iff_ofTokens, Interface.ofTokens_eq_ok_iff] at h
  obtain ⟨start, name, params, portList, rest, hfound, hparameters, hports, hend, hi⟩ :=
    h.exists_parts
  have hname : i.name = name.text := congrArg Interface.name hi
  rw [parameterListTokens_eq hfound hparameters hports] at hlist
  rw [hname] at hlegal ⊢
  -- the name is an identifier, so it is exchanged, and no module is named right behind it
  have hkind : name.kind = .identifier := kind_of_legalName hfound hlegal
  obtain ⟨start', name', behind, hfound', hname', hbehind⟩ :=
    exists_findHeader?_renameModule name.text hnew hfound
  have hnameText : name'.text = new := by
    show name'.toLexeme.text = new
    rw [hname', text_renameLexeme_behindStart, if_pos]
    refine ⟨hkind, ?_⟩
    simp [equalIgnoringCase, Token.text, Lexeme.text]
  have hplace : NamePlace.behindStart.next name.kind = .elsewhere := by
    rw [hkind]
    rfl
  rw [hplace] at hbehind
  obtain ⟨params', portList', rest', rfl, hparams', hportList', hkinds⟩ :=
    exists_sections_of_renamed hlist hports hbehind
  rw [← hparams'] at hparameters
  rw [← hportList'] at hports
  have hend' : ∃ t ∈ rest', t.kind = .keyword .moduleEnd := by
    have hmem := List.mem_map.2 hend
    rw [← hkinds] at hmem
    exact List.mem_map.1 hmem
  have hdeclares := Declares.of_findHeader? hfound' hparameters hports hend'
  rw [hnameText] at hdeclares
  refine ⟨name'.span, ?_⟩
  rw [Interface.ofText_eq_ok_iff_ofTokens, Interface.ofTokens_eq_ok_iff]
  exact hdeclares

end HdlModule
