import HdlModule.Proofs.Content.Create
import HdlModule.Proofs.Grammar.Rename
import HdlModule.Proofs.Lexing.Border

/-!
# The name that a new module gets

The name that is asked for is written into the template as it is, and the name of the new module is
read back from there. Any text can be asked for: one with blanks, comments or whole modules in it.
A legal name is read back. Of any other text the new module gets at most a part, an identifier of
it: the template behind the name holds no identifier, wherever the text in front of it breaks off.

## Main results

* `kind_ne_identifier_of_reaches`: there is no identifier in the template behind the name
* `exists_identifier_of_ofText`: a new module is named by an identifier of the text that was asked
  for
* `Content.create_name_eq_iff`: a new module has the name that was asked for if that is legal
-/

namespace HdlModule

/-! ### The template behind the name -/

section Tail

variable {shown : KeywordCase} {reach rest : List Char}

/-- The template behind the parenthesis of the port list. -/
def templateBreak (shown : KeywordCase) : List Char := (templateTail shown).drop 2

theorem templateTail_eq (shown : KeywordCase) :
    templateTail shown = ' ' :: '(' :: templateBreak shown := rfl

theorem head?_templateBreak (shown : KeywordCase) : (templateBreak shown).head? = some '\n' := rfl

/-- There is no identifier in the template behind the name. -/
theorem kind_ne_identifier_of_mem_templateTail :
    ∀ l ∈ lexemes (templateTail shown), l.kind ≠ .identifier := by
  intro l hl hkind
  have hmem : l ∈ significant (lexemes (templateTail shown)) :=
    List.mem_filter.2 ⟨hl, by rw [hkind]; rfl⟩
  rw [significant_lexemes_templateTail] at hmem
  simp only [List.mem_append, List.mem_cons, List.not_mem_nil, or_false] at hmem
  rcases hmem with (rfl | rfl) | (rfl | rfl) <;> cases hkind

theorem lexemes_templateTail (shown : KeywordCase) :
    lexemes (templateTail shown) =
      ⟨.whitespace, [' ']⟩ :: ⟨.leftParen, ['(']⟩ :: lexemes (templateBreak shown) := by
  rw [templateTail_eq, lexemes_blank_cons (stops_cons.2 rfl), lexemes_punctuation_cons (by decide)]
  rfl

/-- Where a part of the template breaks off: behind the space, behind the parenthesis, or behind
the end of the line. -/
theorem cases_of_templateTail (h : templateTail shown = reach ++ rest) (hreach : reach ≠ []) :
    ' ' ∈ reach ∧ (rest = '(' :: templateBreak shown ∨ rest = templateBreak shown ∨
      '(' ∈ reach ∧ '\n' ∈ reach) := by
  rw [templateTail_eq] at h
  rcases reach with _ | ⟨x, _ | ⟨y, _ | ⟨z, reach⟩⟩⟩
  · exact absurd rfl hreach
  · obtain ⟨rfl, hrest⟩ := List.cons.inj h
    exact ⟨List.mem_cons_self, Or.inl hrest.symm⟩
  · obtain ⟨rfl, hbehind⟩ := List.cons.inj h
    obtain ⟨rfl, hrest⟩ := List.cons.inj hbehind
    exact ⟨List.mem_cons_self, Or.inr (Or.inl hrest.symm)⟩
  · obtain ⟨rfl, hbehind⟩ := List.cons.inj h
    obtain ⟨rfl, hrest⟩ := List.cons.inj hbehind
    have hhead := congrArg List.head? hrest
    rw [head?_templateBreak] at hhead
    obtain rfl : '\n' = z := Option.some.inj hhead
    exact ⟨List.mem_cons_self, Or.inr (Or.inr ⟨by simp, by simp⟩)⟩

/-- **There is no identifier in the template behind the name**, also if a lexeme of the name reaches
into it. Such a lexeme goes no further than to the end of the line. -/
theorem kind_ne_identifier_of_reaches {mid : List Char} {ls : List Lexeme}
    (h : Reaches mid (templateTail shown) ls) : ∀ l ∈ ls, l.kind ≠ .identifier := by
  have htail : ∀ l ∈ lexemes (templateTail shown), l.kind ≠ .identifier :=
    kind_ne_identifier_of_mem_templateTail
  cases h with
  | nothing => exact htail
  | @lexeme c ds reach rest k hleads hchars hreach hrest =>
    obtain ⟨hspace, hrest⟩ := cases_of_templateTail hrest hreach
    have hsubset : reach ⊆ c :: ds := by
      rw [hchars]
      exact List.subset_append_right ..
    obtain ⟨hword, hline⟩ := hleads.cases_of_space (hsubset hspace)
    have hkind : k ≠ .identifier := by
      rintro rfl
      cases hword
    rw [lexemes_templateTail, List.forall_mem_cons] at htail
    refine List.forall_mem_cons.2 ⟨hkind, ?_⟩
    rcases hrest with rfl | rfl | ⟨hparen, hbreak⟩
    · rw [lexemes_punctuation_cons (by decide)]
      exact htail.2
    · exact (List.forall_mem_cons.1 htail.2).2
    · rcases hline with hblanks | hline
      · have hparen := hblanks '(' (hsubset hparen)
        cases hparen
      · exact absurd (hsubset hbreak) hline

/-- The identifiers in front of the template's tail are those of the text that stands there. -/
theorem mem_lexemes_of_mem_append {cs : List Char} {l : Lexeme}
    (hl : l ∈ lexemes (cs ++ templateTail shown)) (hkind : l.kind = .identifier) :
    l ∈ lexemes cs := by
  obtain ⟨front, mid, behind, hfront, hwhole, hbehind⟩ := exists_border cs (templateTail shown)
  rw [hwhole, List.mem_append] at hl
  rw [hfront]
  rcases hl with hl | hl
  · exact List.mem_append_left _ hl
  · exact absurd hkind (kind_ne_identifier_of_reaches hbehind l hl)

end Tail

/-! ### The header of a new module -/

section Header

variable {name : String} {shown : KeywordCase}

/-- The identifiers of the text of a new module are those of the text that was asked for. -/
theorem mem_lexemes_of_renderTemplate {l : Lexeme}
    (hl : l ∈ lexemes (renderTemplate none name shown).toList) (hkind : l.kind = .identifier) :
    l ∈ lexemes name.toList := by
  have hstart : SpellsWord (templateStart shown) := (spells_templateStart shown).exists_cons
  rw [toList_renderTemplate, hstart.lexemes_append (stops_cons.2 rfl),
    (spells_templateStart shown).wordKind_eq] at hl
  rcases List.mem_cons.1 hl with rfl | hl
  · cases hkind
  · rw [← List.cons_append] at hl
    have hmem := mem_lexemes_of_mem_append hl hkind
    -- the space in front of the name may become one with blanks of the name
    have hblank : ∀ x ∈ [' '], isSpace x = true := List.forall_mem_singleton.2 rfl
    obtain ⟨ls, hlexed, hsignificant⟩ := (lexed_lexemes name.toList).blanks_append hblank
    have hlexemes : lexemes (' ' :: name.toList) = ls := hlexed.lexemes_eq
    have hmem : l ∈ significant ls :=
      List.mem_filter.2 ⟨hlexemes ▸ hmem, by rw [hkind]; rfl⟩
    rw [hsignificant] at hmem
    exact (List.mem_filter.1 hmem).1

/-- **A new module is named by an identifier of the text that was asked for**, if its name is
legal. -/
theorem exists_identifier_of_ofText {i : Interface}
    (h : Interface.ofText (renderTemplate none name shown) = .ok i) (hlegal : LegalName i.name) :
    ∃ t ∈ tokens name, t.kind = .identifier ∧ t.text = i.name := by
  have hname := declaredName?_of_ofText h
  rw [declaredName?, Option.map_eq_some_iff] at hname
  obtain ⟨⟨start, word, rest⟩, hfound, hword⟩ := hname
  have hword : word.text = i.name := hword
  have hkind : word.kind = .identifier := kind_of_legalName hfound (hword ▸ hlegal)
  obtain ⟨pre, hts, -⟩ := findHeader?_eq_some_iff.1 hfound
  have hmem : word.toLexeme ∈ (significantTokens (renderTemplate none name shown)).map
      Token.toLexeme := by
    rw [hts]
    simp
  rw [map_toLexeme_significantTokens] at hmem
  have hlexeme := mem_lexemes_of_renderTemplate (List.mem_filter.1 hmem).1 hkind
  rw [← map_toLexeme_locate 0 (lexemes name.toList)] at hlexeme
  obtain ⟨t, ht, htoken⟩ := List.mem_map.1 hlexeme
  refine ⟨t, ht, ?_, ?_⟩
  · rw [htoken, hkind]
  · rw [Token.text, htoken, ← hword, Token.text]

end Header

namespace Content

variable {env : Environment} {supply : Nat} {name : String}

/-- **A new content is valid if its text is accepted.** -/
theorem isValid_ofText_iff {text : String} :
    (ofText env supply name text).content.isValid = true ↔
      env.check text = .ok () ∧ ∃ i, Interface.ofText text = .ok i ∧ LegalName i.name ∧
        (i.name ≠ name → i.name ∉ env.names.toList) ∧ ∀ p ∈ i.parameters, LegalName p.name := by
  rw [ofText_eq_review]
  cases hexamine : ({ blank name with text := text } : Content).examine env with
  | error e =>
    rw [review_of_error hexamine]
    constructor
    · intro hvalid
      cases hvalid
    · rintro ⟨hcheck, i, haccepted⟩
      have haccepted : ({ blank name with text := text } : Content).examine env = .ok i :=
        examine_eq_ok_iff.2 ⟨hcheck, haccepted⟩
      rw [hexamine] at haccepted
      cases haccepted
  | ok i =>
    rw [review_of_ok hexamine]
    obtain ⟨hcheck, haccepted⟩ := examine_eq_ok_iff.1 hexamine
    exact ⟨fun _ => ⟨hcheck, i, haccepted⟩, fun _ => rfl⟩

/-- A new content that is valid has the name in its text. -/
theorem name_ofText_of_isValid {text : String} {i : Interface}
    (h : (ofText env supply name text).content.isValid = true)
    (hread : Interface.ofText text = .ok i) :
    (ofText env supply name text).content.name = i.name := by
  rw [ofText_eq_review] at h ⊢
  cases hexamine : ({ blank name with text := text } : Content).examine env with
  | error e =>
    rw [review_of_error hexamine] at h
    cases h
  | ok i' =>
    obtain ⟨-, hread', -⟩ := examine_eq_ok_iff.1 hexamine
    obtain rfl : i' = i := Except.ok.inj (hread'.symm.trans hread)
    rw [review_of_ok hexamine]
    rfl

/-- **A new module has the name that was asked for if that is legal**, and under no other
circumstances, if the text of the new module passes the check. Asked for another name, a module may
be valid under an identifier that stands in the text of that name, and is never valid under any
other name. -/
theorem create_name_eq_iff (env : Environment) (supply : Nat) (name : String)
    (shown : KeywordCase) (htemplate : env.settings.template? = none)
    (hcheck : env.check (renderTemplate none name env.settings.keywordCase) = .ok ()) :
    let made := (create env supply name).content
    (made.isValid = true ∧ made.name = name ↔ validateName shown name = .ok ()) ∧
      (made.isValid = true → ∃ t ∈ tokens name, t.kind = .identifier ∧ t.text = made.name) := by
  have hmade : create env supply name =
      ofText env supply name (renderTemplate none name env.settings.keywordCase) := by
    rw [create, htemplate]
  dsimp only
  rw [hmade, ← legalName_iff shown]
  refine ⟨⟨?_, fun hlegal => ?_⟩, fun hvalid => ?_⟩
  · rintro ⟨hvalid, hname⟩
    obtain ⟨-, i, hread, hlegal, -⟩ := isValid_ofText_iff.1 hvalid
    rw [← hname, name_ofText_of_isValid hvalid hread]
    exact hlegal
  · have hread := ofText_renderTemplate hlegal.spellsIdentifier.spellsWord env.settings.keywordCase
    have hvalid : (ofText env supply name
        (renderTemplate none name env.settings.keywordCase)).content.isValid = true :=
      isValid_ofText_iff.2
        ⟨hcheck, _, hread, hlegal, fun hne => absurd rfl hne, List.forall_mem_nil _⟩
    exact ⟨hvalid, name_ofText_of_isValid hvalid hread⟩
  · obtain ⟨-, i, hread, hlegal, -⟩ := isValid_ofText_iff.1 hvalid
    rw [name_ofText_of_isValid hvalid hread]
    exact exists_identifier_of_ofText hread hlegal

/-- With keywords in upper case, a checker that accepts everything, and a module that has the
name. -/
theorem create_name_eq_iff_taken :
    let env : Environment := ⟨⟨true, none, none⟩, some fun _ => .accepted, .ofList ["Alu"]⟩
    env.settings.template? = none ∧
      env.check (renderTemplate none "Alu" env.settings.keywordCase) = .ok () ∧
      (create env 3 "Alu").content.isValid = true ∧ (create env 3 "Alu").content.name = "Alu" := by
  intro env
  have hname : validateName .lower "Alu" = .ok () := by decide +kernel
  exact ⟨rfl, rfl, (create_name_eq_iff env 3 "Alu" .lower rfl rfl).1.2 hname⟩

/-- A module that is asked for with a whole module in its name is made under another name. -/
theorem not_forall_create_name_eq :
    ¬ ∀ (env : Environment) (supply : Nat) (name : String), env.settings.template? = none →
      env.check (renderTemplate none name env.settings.keywordCase) = .ok () →
      (create env supply name).content.isValid = true →
      (create env supply name).content.name = name := by
  intro h
  have hname := h ⟨⟨false, none, none⟩, none, .ofList []⟩ 0 "A(); endmodule module B" rfl rfl
    (by decide +kernel)
  revert hname
  decide +kernel

end Content

end HdlModule
