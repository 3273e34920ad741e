import HdlModule.Proofs.Content.Rename
import HdlModule.Proofs.Identifier.Grammar
import HdlModule.Proofs.Lexing.LongestMatch
import HdlModule.Proofs.Lexing.Names
import HdlModule.Proofs.Lexing.Tiling

/-!
# The name of a module as a token

Names are judged without a look at texts: by a grammar of their own, and by a table of all reserved
words. Texts are read by other rules, and with the few keywords that stand in module headers. The
two have to fit. A legal name that is not one identifier of a text could not be written into it, and
if a keyword of headers was a legal name, then a module of this name could not be found again.

They do fit. A legal name is one token, an identifier. Any token that is a keyword has the grammar
of a name and is refused as a reserved word, in any case of its letters. So the name of a valid
content is an identifier of its text, at a place where the module is renamed.

## Main results

* `validateName_of_mem_tokens`: a keyword is refused as a name because it is reserved
* `exists_namesAt_of_inStep`: a content in step with its text is named by a token that is renamed
* `tokens_of_validateName`: legal names, keywords and the names of valid contents as tokens
-/

namespace HdlModule

/-! ### Keywords as names -/

theorem TokenKind.isKeyword_iff {kind : TokenKind} :
    kind.isKeyword = true ↔ ∃ k, kind = .keyword k := by
  cases kind <;> simp [isKeyword]

section Keywords

variable {word : List Char} {k : Keyword}

theorem separated_of_forall_isAlpha (h : ∀ c ∈ word, c.isAlpha = true) : Separated word := by
  induction word with
  | nil => exact separated_nil
  | cons c cs ih =>
    obtain ⟨hc, hcs⟩ := List.forall_mem_cons.1 h
    have hc' : c.isAlphanum = true := Bool.or_eq_true_iff.2 (Or.inl hc)
    exact (separated_cons_iff hc').2 (ih hcs)

/-- A keyword breaks no rule of the grammar of names, as it is made of letters. -/
theorem Spells.nameShape_eq (h : Spells word k) : nameShape word = .ok () := by
  have hletters : ∀ c ∈ word, c.isAlpha = true := fun c hc => h.isAlpha hc
  obtain ⟨c, cs, rfl, -, -⟩ := h.exists_cons
  apply nameShape_cons_eq_ok_iff.2
  exact ⟨hletters c List.mem_cons_self, separated_of_forall_isAlpha hletters⟩

/-- A name that is read as a keyword is refused because it is reserved. -/
theorem validateName_of_wordKind {name : String} (h : wordKind name.toList = .keyword k)
    (shown : KeywordCase) :
    validateName shown name = .error (.reserved name (shown.apply name)) := by
  have hreserved := isReserved_of_wordKind h
  rw [String.ofList_toList] at hreserved
  rw [validateName, (spells_of_wordKind h).nameShape_eq]
  exact if_pos hreserved

/-- **A keyword of a text is refused as a name because it is reserved.** -/
theorem validateName_of_mem_tokens {source : String} {t : Token} (ht : t ∈ tokens source)
    (hkeyword : t.kind.isKeyword = true) (shown : KeywordCase) :
    validateName shown t.text = .error (.reserved t.text (shown.apply t.text)) := by
  obtain ⟨k, hk⟩ := TokenKind.isKeyword_iff.1 hkeyword
  obtain ⟨-, hword⟩ := spellsWord_of_mem_tokens ht (by rw [hk]; rfl)
  apply validateName_of_wordKind
  rw [t.toList_text, ← hword]
  exact hk

end Keywords

/-! ### The token that names a module -/

/-- An element that is kept has the elements in front of it that are kept, and others. -/
theorem exists_append_of_filter_eq {α : Type} {p : α → Bool} {xs kept more : List α} {x : α}
    (h : xs.filter p = kept ++ x :: more) :
    ∃ front behind, xs = front ++ x :: behind ∧ front.filter p = kept := by
  obtain ⟨front, rest, rfl, hfront, hrest⟩ := List.filter_eq_append_iff.1 h
  obtain ⟨gap, behind, rfl, hgap, -, -⟩ := List.filter_eq_cons_iff.1 hrest
  refine ⟨front ++ gap, behind, (List.append_assoc ..).symm, ?_⟩
  rw [List.filter_append, hfront, List.filter_eq_nil_iff.2 hgap, List.append_nil]

/-- **The identifier of a header names a module**, among all tokens of the text. -/
theorem exists_namesAt_of_findHeader? {text : String} {start name : Token} {rest : List Token}
    (h : findHeader? none (significantTokens text) = some (start, name, rest))
    (hkind : name.kind = .identifier) :
    ∃ i, (tokens text)[i]? = some name ∧ NamesAt name.text (tokens text) i name := by
  obtain ⟨hstart, -⟩ := kinds_of_findHeader? h
  obtain ⟨pre, hts, -⟩ := findHeader?_eq_some_iff.1 h
  rw [List.append_cons] at hts
  -- the place counts blanks and comments too, and the keyword is the last token that is neither
  obtain ⟨front, behind, htokens, hfront⟩ := exists_append_of_filter_eq hts
  refine ⟨front.length, ?_, hkind, ?_, Or.inl ?_⟩
  · rw [htokens]
    simp
  · simp [equalIgnoringCase, Token.text, Lexeme.text]
  · rw [htokens, List.take_left, hfront, List.map_append, List.map_singleton, hstart]
    exact List.suffix_append ..

/-- **A content in step with its text is named by a token that is renamed.** -/
theorem exists_namesAt_of_inStep {c : Content} (h : InStep c) :
    ∃ i t, (tokens c.text)[i]? = some t ∧ t.text = c.name ∧
      NamesAt c.name (tokens c.text) i t := by
  have hdeclared := Content.declaredName?_of_inStep h
  obtain ⟨⟨start, name, rest⟩, hfound, hname⟩ := Option.map_eq_some_iff.1 hdeclared
  have hname : name.text = c.name := hname
  have hkind : name.kind = .identifier := kind_of_legalName hfound (hname ▸ h.name)
  obtain ⟨i, hi, hnames⟩ := exists_namesAt_of_findHeader? hfound hkind
  exact ⟨i, name, hi, hname, hname ▸ hnames⟩

/-! ### Names and tokens -/

/-- **Legal names, keywords and the names of valid contents as tokens.** A legal name is one token,
an identifier. A token of any text that is a keyword is refused as a name because it is reserved. So
the name of a valid content is one identifier. It stands in the text of the content as a token that
names a module, and in its place any legal name can be put. -/
theorem tokens_of_validateName (shown : KeywordCase) :
    (∀ name, validateName shown name = .ok () →
      tokens name = [⟨⟨.identifier, name.toList⟩, 0⟩]) ∧
    (∀ source, ∀ t ∈ tokens source, t.kind.isKeyword = true →
      validateName shown t.text = .error (.reserved t.text (shown.apply t.text))) ∧
    ∀ c es, History c es → c.isValid = true →
      tokens c.name = [⟨⟨.identifier, c.name.toList⟩, 0⟩] ∧
        (∃ i t, (tokens c.text)[i]? = some t ∧ t.text = c.name ∧
          NamesAt c.name (tokens c.text) i t) ∧
        ∀ new, validateName shown new = .ok () →
          declaredName? (renameModule c.text c.name new) = some new := by
  refine ⟨?_, ?_, ?_⟩
  · intro name hname
    exact ((legalName_iff shown).2 hname).spellsIdentifier.tokens_eq
  · intro source t ht hkeyword
    exact validateName_of_mem_tokens ht hkeyword shown
  · intro c es h hvalid
    have hstep := h.sound.1 hvalid
    refine ⟨hstep.name.spellsIdentifier.tokens_eq, exists_namesAt_of_inStep hstep, ?_⟩
    intro new hnew
    exact Content.declaredName?_renameModule_of_inStep hstep ((legalName_iff shown).2 hnew)

/-- A name with an underscore, a keyword in both cases behind a literal, and a module behind its
prototype. -/
theorem tokens_of_validateName_prototype :
    tokens "fifo_2x" = [⟨⟨.identifier, "fifo_2x".toList⟩, 0⟩] ∧
      validateName .upper "mODULE" = .error (.reserved "mODULE" (KeywordCase.upper.apply "mODULE")) ∧
      ∃ c es, History c es ∧ c.isValid = true ∧
        tokens c.name = [⟨⟨.identifier, "Alu".toList⟩, 0⟩] ∧
        (∃ i t, (tokens c.text)[i]? = some t ∧ t.text = c.name ∧
          NamesAt c.name (tokens c.text) i t) ∧
        declaredName? (renameModule c.text c.name "fifo_2x") = some "fifo_2x" := by
  obtain ⟨hlegal, hkeyword, hvalid⟩ := tokens_of_validateName .upper
  have hname : validateName .upper "fifo_2x" = .ok () := by decide +kernel
  have hrefused := hkeyword "8'hFmODULE" ⟨⟨.keyword .moduleStart, "mODULE".toList⟩, 4⟩
    (by decide +kernel) rfl
  rw [Token.text, Lexeme.text, String.ofList_toList] at hrefused
  have hread := History.ofText .initial 0 "A" "extern module alu(); // A\nmodule Alu(); endmodule"
  have hAlu : (Content.ofText .initial 0 "A"
      "extern module alu(); // A\nmodule Alu(); endmodule").content.name = "Alu" := by
    decide +kernel
  obtain ⟨hone, hnamed, hrenamed⟩ := hvalid _ _ hread (by decide +kernel)
  refine ⟨hlegal _ hname, hrefused, _, _, hread, by decide +kernel, ?_, hnamed, hrenamed _ hname⟩
  rwa [hAlu] at hone ⊢

end HdlModule
