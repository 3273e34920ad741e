import HdlModule.Proofs.Lexing.Lexed
import HdlModule.Token.Rename

/-!
# Renaming and lexemes

Renaming changes lexemes one by one, and the changed text falls into the changed lexemes. No
lexeme grows into a new name or out of one: a name is renamed only behind blanks, comments or the
colon of a label, and in front of what ended the old name.

## Main definitions

* `SpellsIdentifier name`: the characters are one identifier
* `Alike rest rest'`: the texts start with the same character, or each with a word
* `TokenKind.delimitsModule`: the keywords behind which a module may be named

## Main results

* `lexemes_renameModule`: the lexemes of a renamed text are the renamed lexemes
* `renameLexemes_append_of_forall`: where no module starts or ends, nothing is renamed
-/

namespace HdlModule

/-! ### Words -/

/-- The characters are one identifier. -/
def SpellsIdentifier (name : List Char) : Prop :=
  ∃ c ds, name = c :: ds ∧ isWordStart c = true ∧ (∀ d ∈ ds, isWordPart d = true) ∧
    wordKind name = .identifier

/-- A word of the kind of a keyword spells it. -/
theorem wordKind_eq_keyword {word : List Char} {k : Keyword} (h : wordKind word = .keyword k) :
    k ∈ Keyword.all ∧ k.text = String.ofList (word.map Char.toLower) := by
  unfold wordKind at h
  split at h
  · next k' hk' =>
    obtain rfl : k' = k := by simpa using h
    unfold Keyword.ofWord? at hk'
    exact ⟨List.mem_of_find?_eq_some hk', by simpa using List.find?_some hk'⟩
  · cases h

section Words

variable {c : Char} {ds rest rest' : List Char} {k : TokenKind}

theorem wordKind_isWord (word : List Char) : (wordKind word).isWord = true := by
  unfold wordKind
  split <;> rfl

theorem punctuation_isWord (c : Char) : (punctuation c).isWord = false := by
  unfold punctuation
  split <;> rfl

/-- A lexeme of the kind of a word is a word. -/
theorem Leads.word_of_isWord (h : Leads c ds rest k) (hk : k.isWord = true) :
    isWordStart c = true ∧ (∀ d ∈ ds, isWordPart d = true) ∧ Stops isWordPart rest ∧
      k = wordKind (c :: ds) := by
  cases h with
  | word hc hds hrest => exact ⟨hc, hds, hrest, rfl⟩
  | alone hc => rw [punctuation_isWord] at hk; cases hk
  | _ => cases hk

/-- The kind of a word in a text is that of its characters. -/
theorem kind_eq_wordKind {cs : List Char} {l : Lexeme} (h : l ∈ lexemes cs)
    (hword : l.kind.isWord = true) : l.kind = wordKind l.chars := by
  have hlexed := lexed_lexemes cs
  generalize lexemes cs = ls at h hlexed
  induction hlexed with
  | nil => cases h
  | cons hleads _ ih =>
    rcases List.mem_cons.1 h with rfl | h
    · exact (hleads.word_of_isWord hword).2.2.2
    · exact ih h

theorem Leads.length_of_keyword {k : Keyword} (h : Leads c ds rest (.keyword k)) :
    (c :: ds).length = k.text.length := by
  obtain ⟨-, -, -, hk⟩ := h.word_of_isWord rfl
  have htext := (wordKind_eq_keyword hk.symm).2
  rw [htext, String.length_ofList, List.length_map]

/-! ### Texts that start alike -/

/-- The texts start with the same character, or each with a word. -/
def Alike (rest rest' : List Char) : Prop :=
  rest.head? = rest'.head? ∨ ∃ w w', rest.head? = some w ∧ rest'.head? = some w' ∧
    isWordStart w = true ∧ isWordStart w' = true

theorem isWordPart_of_isWordStart {c : Char} (h : isWordStart c = true) :
    isWordPart c = true := by
  simp only [isWordStart, isWordPart, isDirectivePart, Char.isAlphanum, Bool.or_eq_true] at *
  rcases h with h | h
  · exact Or.inl (Or.inl (Or.inl h))
  · exact Or.inl (Or.inr h)

theorem isLineEnd_of_isWordStart {c : Char} (h : isWordStart c = true) : isLineEnd c = false := by
  have hspace := isSpace_of_isWordStart h
  simp only [isSpace, isLineEnd, Bool.or_eq_false_iff] at *
  exact ⟨hspace.1.1.2, hspace.1.2⟩

/-- Blanks, comments, keywords and colons end in front of a word if they end in front of another
one. -/
theorem Leads.of_alike (h : Leads c ds rest k) (halike : Alike rest rest')
    (hk : k.isTrivia = true ∨ k.isKeyword = true ∨ k = .colon) : Leads c ds rest' k := by
  rcases halike with hhead | ⟨w, w', hw, hw', hword, hword'⟩
  · cases h with
    | space hc hds hrest => exact .space hc hds (hrest.congr hhead)
    | word hc hds hrest => exact .word hc hds (hrest.congr hhead)
    | comment hds hrest => exact .comment hds (hrest.congr hhead)
    | colon hrest => exact .colon (hhead ▸ hrest)
    | alone hc => exact .alone hc
    | _ => simp [TokenKind.isTrivia, TokenKind.isKeyword] at hk
  · cases h with
    | space hc hds hrest =>
      refine .space hc hds fun x hx => ?_
      obtain rfl : w' = x := by rwa [hw', Option.mem_some_iff] at hx
      exact isSpace_of_isWordStart hword'
    | word hc hds hrest =>
      have hstop := hrest w hw
      rw [isWordPart_of_isWordStart hword] at hstop
      cases hstop
    | comment hds hrest =>
      have hstop := hrest w hw
      simp [isLineEnd_of_isWordStart hword] at hstop
    | colon hrest =>
      refine .colon fun x hx => ?_
      obtain rfl : w' = x := by rwa [hw', Option.mem_some_iff] at hx
      rintro rfl
      exact absurd hword' (by decide)
    | alone hc => exact .alone hc
    | _ => simp [TokenKind.isTrivia, TokenKind.isKeyword] at hk

end Words

/-! ### Renaming -/

/-- Whether this is a keyword that starts or ends a module. -/
def TokenKind.delimitsModule (k : TokenKind) : Bool :=
  k = .keyword .moduleStart || k = .keyword .moduleEnd

namespace NamePlace

/-- A module is named next only behind blanks, comments, keywords and colons. -/
theorem kind_of_next {place : NamePlace} {k : TokenKind} (h : place.next k ≠ elsewhere) :
    k.isTrivia = true ∨ k.isKeyword = true ∨ k = .colon := by
  cases k <;> simp_all [next, TokenKind.isTrivia, TokenKind.isKeyword]

theorem next_of_isTrivia {place : NamePlace} {k : TokenKind} (h : k.isTrivia = true) :
    place.next k = place := by
  simp [next, h]

/-- Elsewhere, only the start and the end of a module lead to a name. -/
theorem keyword_of_next_elsewhere {k : TokenKind} (h : elsewhere.next k ≠ elsewhere) :
    k = .keyword .moduleStart ∨ k = .keyword .moduleEnd := by
  unfold next at h
  split at h
  · exact absurd rfl h
  · split at h
    · exact Or.inl rfl
    · exact Or.inr rfl
    · simp at h
    · exact absurd rfl h

end NamePlace

section Rename

variable {old new : List Char} {place : NamePlace}

@[simp]
theorem renameLexemes_nil : renameLexemes old new place [] = [] := rfl

@[simp]
theorem renameLexemes_cons (l : Lexeme) (ls : List Lexeme) :
    renameLexemes old new place (l :: ls) =
      renameLexeme old new place l :: renameLexemes old new (place.next l.kind) ls := rfl

@[simp]
theorem kind_renameLexeme (l : Lexeme) : (renameLexeme old new place l).kind = l.kind := by
  unfold renameLexeme
  split <;> rfl

theorem renameLexeme_of_not_named {l : Lexeme} (h : place.isNamed = false) :
    renameLexeme old new place l = l := by
  simp [renameLexeme, h]

/-- Behind the keyword that starts a module an identifier is exchanged if it is the old name but
for case. -/
theorem text_renameLexeme_behindStart (old new : String) (l : Lexeme) :
    (renameLexeme old.toList new.toList .behindStart l).text =
      if l.kind = .identifier ∧ equalIgnoringCase l.chars old.toList then new else l.text := by
  have hcond : (NamePlace.behindStart.isNamed && l.kind = .identifier &&
      equalIgnoringCase l.chars old.toList) = true ↔
        l.kind = .identifier ∧ equalIgnoringCase l.chars old.toList := by
    simp [NamePlace.isNamed]
  rw [renameLexeme]
  by_cases h : l.kind = .identifier ∧ equalIgnoringCase l.chars old.toList
  · rw [if_pos (hcond.2 h), if_pos h, Lexeme.text, String.ofList_toList]
  · rw [if_neg (mt hcond.1 h), if_neg h]

/-- Renaming keeps the kinds of the lexemes. -/
@[simp]
theorem map_kind_renameLexemes (ls : List Lexeme) :
    (renameLexemes old new place ls).map Lexeme.kind = ls.map Lexeme.kind := by
  induction ls generalizing place with
  | nil => rfl
  | cons l ls ih => simp [ih]

/-- Blanks and comments do not matter to renaming. -/
theorem filter_renameLexemes (ls : List Lexeme) :
    (renameLexemes old new place ls).filter (!·.kind.isTrivia) =
      renameLexemes old new place (ls.filter (!·.kind.isTrivia)) := by
  induction ls generalizing place with
  | nil => rfl
  | cons l ls ih =>
    cases hl : l.kind.isTrivia with
    | true => simp [hl, ih, NamePlace.next_of_isTrivia hl]
    | false => simp [hl, ih]

/-- Where no module starts or ends, nothing is renamed. -/
theorem renameLexemes_append_of_forall {ls ls' : List Lexeme}
    (h : ∀ l ∈ ls, l.kind.delimitsModule = false) :
    renameLexemes old new .elsewhere (ls ++ ls') = ls ++ renameLexemes old new .elsewhere ls' := by
  induction ls with
  | nil => rfl
  | cons l ls ih =>
    obtain ⟨hl, hls⟩ := List.forall_mem_cons.1 h
    have hnext : NamePlace.elsewhere.next l.kind = .elsewhere := by
      refine Decidable.byContradiction fun hnext => ?_
      rcases NamePlace.keyword_of_next_elsewhere hnext with hstart | hend
      · simp [TokenKind.delimitsModule, hstart] at hl
      · simp [TokenKind.delimitsModule, hend] at hl
    rw [List.cons_append, renameLexemes_cons, renameLexeme_of_not_named rfl, hnext, ih hls,
      List.cons_append]

/-- Where no module is named next, renaming leaves the next four characters. -/
theorem Lexed.take_renameLexemes {rest : List Char} {ls : List Lexeme} (h : Lexed rest ls) :
    ((renameLexemes old new .elsewhere ls).flatMap Lexeme.chars).take 4 = rest.take 4 := by
  induction h with
  | nil => rfl
  | @cons c ds rest k ls hleads hrest ih =>
    rw [renameLexemes_cons, renameLexeme_of_not_named rfl, List.flatMap_cons]
    simp only [← List.cons_append]
    rw [List.take_append, List.take_append]
    by_cases hnext : NamePlace.elsewhere.next k = .elsewhere
    · rw [hnext, take_eq_of_le ih (Nat.sub_le 4 _)]
    · -- the keyword that leads to a name is longer than what is looked at
      have hlength : 4 - (c :: ds).length = 0 := by
        rcases NamePlace.keyword_of_next_elsewhere hnext with rfl | rfl
        · rw [hleads.length_of_keyword]
          decide
        · rw [hleads.length_of_keyword]
          decide
      rw [hlength, List.take_zero, List.take_zero]

/-- Renaming leaves the first character of a text, or puts a word in place of a word. -/
theorem Lexed.alike_renameLexemes {rest : List Char} {ls : List Lexeme} (h : Lexed rest ls)
    (hnew : SpellsIdentifier new) :
    Alike rest ((renameLexemes old new place ls).flatMap Lexeme.chars) := by
  cases h with
  | nil => exact Or.inl rfl
  | @cons c ds rest k ls hleads hrest =>
    rw [renameLexemes_cons, List.flatMap_cons, renameLexeme]
    split
    · next hcond =>
      obtain ⟨c', ds', rfl, hc', -, -⟩ := hnew
      simp only [Bool.and_eq_true, decide_eq_true_eq] at hcond
      obtain ⟨hc, -⟩ := hleads.word_of_isWord (by rw [hcond.1.2]; rfl)
      exact Or.inr ⟨c, c', rfl, rfl, hc, hc'⟩
    · exact Or.inl rfl

/-- A lexeme ends where it did when the lexemes behind it are renamed. -/
theorem Leads.rename {c : Char} {ds rest : List Char} {k : TokenKind} {ls : List Lexeme}
    (hleads : Leads c ds rest k) (hrest : Lexed rest ls) (hnew : SpellsIdentifier new) :
    Leads c ds ((renameLexemes old new (place.next k) ls).flatMap Lexeme.chars) k := by
  by_cases hnext : place.next k = .elsewhere
  · rw [hnext]
    exact hleads.congr hrest.take_renameLexemes.symm
  · exact hleads.of_alike (hrest.alike_renameLexemes hnew) (NamePlace.kind_of_next hnext)

theorem Lexed.rename {cs : List Char} {ls : List Lexeme} (h : Lexed cs ls)
    (hnew : SpellsIdentifier new) :
    Lexed ((renameLexemes old new place ls).flatMap Lexeme.chars)
      (renameLexemes old new place ls) := by
  -- the place stands for all of the text in front, so the induction is for every place
  induction h generalizing place with
  | nil => exact .nil
  | @cons c ds rest k ls hleads hrest ih =>
    rw [renameLexemes_cons, List.flatMap_cons, renameLexeme]
    split
    · next hcond =>
      obtain ⟨c', ds', rfl, hc', hds', hkind⟩ := hnew
      simp only [Bool.and_eq_true, decide_eq_true_eq] at hcond
      obtain rfl : k = .identifier := hcond.1.2
      obtain ⟨-, -, hstop, -⟩ := hleads.word_of_isWord rfl
      -- the new name ends where the old one did, as no name is due behind a name
      have htake : ((renameLexemes old (c' :: ds') .elsewhere ls).flatMap Lexeme.chars).take 4 =
          rest.take 4 := hrest.take_renameLexemes
      have hleads' := Leads.word hc' hds' (hstop.congr (head?_eq_of_take htake).symm)
      rw [hkind] at hleads'
      exact .cons hleads' ih
    · exact .cons (hleads.rename hrest hnew) ih

/-- **Renaming commutes with lexing**: the lexemes of a renamed text are the renamed lexemes. -/
theorem lexemes_renameModule (text old new : String) (hnew : SpellsIdentifier new.toList) :
    lexemes (renameModule text old new).toList =
      renameLexemes old.toList new.toList .elsewhere (lexemes text.toList) := by
  rw [renameModule, String.toList_ofList]
  exact ((lexed_lexemes text.toList).rename hnew).lexemes_eq

/-- Renaming commutes with leaving blanks and comments out. -/
theorem map_toLexeme_renameModule (text old new : String) (hnew : SpellsIdentifier new.toList) :
    (significantTokens (renameModule text old new)).map Token.toLexeme =
      renameLexemes old.toList new.toList .elsewhere
        ((significantTokens text).map Token.toLexeme) := by
  rw [map_toLexeme_significantTokens, map_toLexeme_significantTokens,
    lexemes_renameModule text old new hnew, filter_renameLexemes]

end Rename

end HdlModule
