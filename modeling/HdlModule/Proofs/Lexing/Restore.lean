import HdlModule.Proofs.Lexing.Names

/-!
# Renaming a module there and back

A module that is renamed twice has its first name again, and the question is whether the text is
the first one too. The way back finds the tokens that the way there has written, since renaming
keeps the kinds of the tokens and with them the places at which modules are named. It goes wrong
only at a name that was there before: one that was the old name in another case is put back in
the case of the old name, and one that was the new name already is taken for a name to be put back.

## Main definitions

* `IsNamedBy name place l`: the lexeme names a module at the place, by this name but for case

## Main results

* `renameModule_renameModule_eq_iff`: when exactly renaming there and back restores the text
* `renameModule_renameModule`: it does where the old name is always spelled the same and the new
  one is nowhere in use
-/

namespace HdlModule

/-! ### One lexeme -/

section Lexemes

variable {name old new : List Char} {place : NamePlace} {l : Lexeme}

/-- The lexeme names a module at the place, and the name is this one but for ASCII case. -/
def IsNamedBy (name : List Char) (place : NamePlace) (l : Lexeme) : Prop :=
  place.isNamed = true ∧ l.kind = .identifier ∧ equalIgnoringCase l.chars name = true

theorem renameLexeme_of_isNamedBy (h : IsNamedBy old place l) :
    renameLexeme old new place l = { l with chars := new } := by
  obtain ⟨hplace, hkind, hname⟩ := h
  rw [renameLexeme, if_pos (by simp [hplace, hkind, hname])]

theorem renameLexeme_of_not_isNamedBy (h : ¬ IsNamedBy old place l) :
    renameLexeme old new place l = l := by
  rw [renameLexeme, if_neg]
  intro hcond
  simp only [Bool.and_eq_true, decide_eq_true_eq] at hcond
  exact h ⟨hcond.1.1, hcond.1.2, hcond.2⟩

/-- A lexeme that has got a new name is named by it. -/
theorem IsNamedBy.renamed (h : IsNamedBy old place l) (new : List Char) :
    IsNamedBy new place { l with chars := new } :=
  ⟨h.1, h.2.1, beq_self_eq_true _⟩

theorem mk_kind_eq_iff : Lexeme.mk l.kind name = l ↔ l.chars = name := by
  constructor
  · intro h
    rw [← h]
  · rintro rfl
    rfl

/-- A lexeme is restored unless it names a module by one of the names and is not spelled as the
old one. -/
theorem renameLexeme_renameLexeme_eq_iff :
    renameLexeme new old place (renameLexeme old new place l) = l ↔
      (IsNamedBy old place l ∨ IsNamedBy new place l → l.chars = old) := by
  by_cases hold : IsNamedBy old place l
  · have hback : renameLexeme new old place (renameLexeme old new place l) = ⟨l.kind, old⟩ := by
      rw [renameLexeme_of_isNamedBy hold, renameLexeme_of_isNamedBy (hold.renamed new)]
    rw [hback, mk_kind_eq_iff]
    exact ⟨fun h _ => h, fun h => h (Or.inl hold)⟩
  · rw [renameLexeme_of_not_isNamedBy hold]
    by_cases hnew : IsNamedBy new place l
    · rw [renameLexeme_of_isNamedBy hnew, mk_kind_eq_iff]
      exact ⟨fun h _ => h, fun h => h (Or.inr hnew)⟩
    · rw [renameLexeme_of_not_isNamedBy hnew]
      exact ⟨fun _ h => (h.elim hold hnew).elim, fun _ => rfl⟩

/-- Lexemes are restored if each one is, at its place. -/
theorem renameLexemes_renameLexemes_eq_iff {ls : List Lexeme} :
    renameLexemes new old place (renameLexemes old new place ls) = ls ↔
      ∀ i l, ls[i]? = some l →
        IsNamedBy old (place.behind (ls.take i)) l ∨ IsNamedBy new (place.behind (ls.take i)) l →
          l.chars = old := by
  -- the place stands for the lexemes in front, so the induction is for every place
  induction ls generalizing place with
  | nil => simp
  | cons head ls ih =>
    rw [renameLexemes_cons, renameLexemes_cons, kind_renameLexeme, List.cons.injEq,
      renameLexeme_renameLexeme_eq_iff, ih]
    constructor
    · rintro ⟨hhead, htail⟩ i l hl
      cases i with
      | zero =>
        obtain rfl : head = l := by simpa using hl
        exact hhead
      | succ i => exact htail i l hl
    · intro h
      exact ⟨h 0 head rfl, fun i => h (i + 1)⟩

end Lexemes

/-! ### Texts -/

section Texts

variable {text a b : String}

/-- The way back starts from the lexemes that the way there has written. -/
theorem renameModule_renameModule_eq_iff_lexemes (ha : SpellsIdentifier a.toList)
    (hb : SpellsIdentifier b.toList) :
    renameModule (renameModule text a b) b a = text ↔
      renameLexemes b.toList a.toList .elsewhere
        (renameLexemes a.toList b.toList .elsewhere (lexemes text.toList)) =
          lexemes text.toList := by
  rw [← lexemes_renameModule text a b hb]
  constructor
  · intro h
    rw [← lexemes_renameModule (renameModule text a b) b a ha, h]
  · intro h
    rw [renameModule, h, flatMap_chars_lexemes, String.ofList_toList]

/-- A token names a module as its lexeme does behind the lexemes in front of it. -/
theorem isNamedBy_iff_namesAt {i : Nat} {t : Token} :
    IsNamedBy a.toList (NamePlace.elsewhere.behind ((lexemes text.toList).take i)) t.toLexeme ↔
      NamesAt a (tokens text) i t := by
  rw [IsNamedBy, isNamed_behind_iff, ← map_kind_take_tokens, NamesAt]
  exact and_rotate

/-- **When renaming there and back restores the text**: exactly if each token that names a module
by one of the two names, in whatever case, is spelled as the old name. -/
theorem renameModule_renameModule_eq_iff (ha : LexesAsIdentifier a) (hb : LexesAsIdentifier b) :
    renameModule (renameModule text a b) b a = text ↔
      ∀ i : Fin (tokens text).length,
        NamesAt a (tokens text) i ((tokens text).get i) ∨
            NamesAt b (tokens text) i ((tokens text).get i) →
          ((tokens text).get i).text = a := by
  rw [renameModule_renameModule_eq_iff_lexemes (lexesAsIdentifier_iff.1 ha)
    (lexesAsIdentifier_iff.1 hb), renameLexemes_renameLexemes_eq_iff]
  have htext : ∀ t : Token, t.text = a ↔ t.chars = a.toList := fun t => by
    rw [Token.text, Lexeme.text, ← String.toList_inj, String.toList_ofList]
  constructor
  · intro h i hnamed
    have hlexeme := getElem?_lexemes_of_tokens (List.getElem?_eq_getElem i.isLt)
    rw [htext]
    exact h i _ hlexeme (hnamed.imp isNamedBy_iff_namesAt.2 isNamedBy_iff_namesAt.2)
  · intro h i l hl hnamed
    rw [← map_toLexeme_locate 0 (lexemes text.toList), List.getElem?_map] at hl
    obtain ⟨t, ht, rfl⟩ := Option.map_eq_some_iff.1 hl
    obtain ⟨hi, rfl⟩ := List.getElem?_eq_some_iff.1 ht
    rw [← htext]
    exact h ⟨i, hi⟩ (hnamed.imp isNamedBy_iff_namesAt.1 isNamedBy_iff_namesAt.1)

end Texts

/-- **Renaming there and back restores the text**, byte for byte, where each token that names the
module by the old name is spelled as it is and no token names a module by the new one. -/
theorem renameModule_renameModule (text a b : String) (ha : LexesAsIdentifier a)
    (hb : LexesAsIdentifier b)
    (hspelled : ∀ i : Fin (tokens text).length, NamesAt a (tokens text) i ((tokens text).get i) →
      ((tokens text).get i).text = a)
    (hunused : ∀ i : Fin (tokens text).length,
      ¬ NamesAt b (tokens text) i ((tokens text).get i)) :
    renameModule (renameModule text a b) b a = text := by
  rw [renameModule_renameModule_eq_iff ha hb]
  rintro i (hold | hnew)
  · exact hspelled i hold
  · exact absurd hnew (hunused i)

/-- A module and its label are renamed to a longer name and back. The new name and the old one in
either case stand in the body, where they name no module. -/
theorem renameModule_renameModule_label :
    let text := "module A();a A b$1 endmodule:A"
    let there := "module b$1();a A b$1 endmodule:b$1"
    LexesAsIdentifier "A" ∧ LexesAsIdentifier "b$1" ∧ renameModule text "A" "b$1" = there ∧
      renameModule there "b$1" "A" = text := by
  intro text there
  have hthere : renameModule text "A" "b$1" = there := by decide +kernel
  have hold : LexesAsIdentifier "A" := by decide +kernel
  have hnew : LexesAsIdentifier "b$1" := by decide +kernel
  refine ⟨hold, hnew, hthere, ?_⟩
  rw [← hthere]
  exact renameModule_renameModule text "A" "b$1" hold hnew (by decide +kernel) (by decide +kernel)

end HdlModule
