import HdlModule.Identifier.Validate
import HdlModule.Proofs.Identifier.Reserved
import HdlModule.Proofs.Lexing.Rename

/-!
# Legal names as identifiers

A legal name is one identifier of a text, and no legal name is a keyword of module headers: the
reserved words contain all of these.

## Main definitions

* `LegalName name`: the name is accepted, however reserved words are shown

## Main results

* `LegalName.spellsIdentifier`: a legal name is one identifier
* `isReserved_of_wordKind`: keywords of module headers are reserved
-/

namespace HdlModule

/-- The name is accepted, however reserved words are shown. -/
def LegalName (name : String) : Prop := ∀ shown, validateName shown name = .ok ()

theorem validateName_eq_ok_iff {shown : KeywordCase} {name : String} :
    validateName shown name = .ok () ↔ nameShape name.toList = .ok () ∧ isReserved name = false := by
  unfold validateName
  split
  · next h => simp [h]
  · next h =>
    cases isReserved name <;> simp [h]

theorem legalName_iff (shown : KeywordCase) {name : String} :
    LegalName name ↔ validateName shown name = .ok () := by
  refine ⟨fun h => h shown, fun h shown' => ?_⟩
  rw [validateName_eq_ok_iff] at h ⊢
  exact h

/-- A word of the grammar of names starts with a letter and goes on with letters, digits and
underscores. -/
theorem exists_cons_of_nameShape {name : List Char} (h : nameShape name = .ok ()) :
    ∃ c cs, name = c :: cs ∧ c.isAlpha = true ∧ ∀ d ∈ cs, isNameChar d = true := by
  unfold nameShape at h
  split at h
  · cases h
  · next c cs =>
    split at h
    · cases h
    · next halpha =>
      split at h
      · cases h
      · next hfind =>
        refine ⟨c, cs, rfl, by simpa using halpha, ?_⟩
        simpa using hfind

/-- The keywords of module headers are reserved words. -/
theorem text_mem_reservedKeywords : ∀ k ∈ Keyword.all, k.text ∈ reservedKeywords := by
  decide +kernel

/-- The word of a keyword is reserved. -/
theorem isReserved_of_wordKind {word : List Char} {k : Keyword} (h : wordKind word = .keyword k) :
    isReserved (String.ofList word) = true := by
  obtain ⟨hmem, htext⟩ := wordKind_eq_keyword h
  have hlower : (String.ofList word).toLower = k.text := by
    rw [htext, ← String.toList_inj]
    show ((String.ofList word).map Char.toLower).toList = _
    rw [String.toList_map, String.toList_ofList, String.toList_ofList]
  rw [isReserved_iff, hlower]
  exact text_mem_reservedKeywords k hmem

/-- **A legal name is one identifier.** -/
theorem LegalName.spellsIdentifier {name : String} (h : LegalName name) :
    SpellsIdentifier name.toList := by
  obtain ⟨hshape, hreserved⟩ := validateName_eq_ok_iff.1 (h .lower)
  obtain ⟨c, cs, hname, hc, hcs⟩ := exists_cons_of_nameShape hshape
  refine ⟨c, cs, hname, by simp [isWordStart, hc], fun d hd => ?_, ?_⟩
  · have hd := hcs d hd
    simp only [isNameChar, isWordPart, isDirectivePart] at hd ⊢
    rw [hd, Bool.true_or]
  · cases hkind : wordKind name.toList with
    | identifier => rfl
    | keyword k =>
      have := isReserved_of_wordKind hkind
      rw [String.ofList_toList, hreserved] at this
      cases this
    | _ =>
      have := wordKind_isWord name.toList
      rw [hkind] at this
      cases this

end HdlModule
