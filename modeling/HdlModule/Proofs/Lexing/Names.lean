import HdlModule.Proofs.Lexing.Layout
import HdlModule.Proofs.Lexing.Rename
import Mathlib.Data.List.Induction

/-!
# Names of modules among the tokens of a text

While a text is renamed, a place stands for all of the tokens passed so far. Here it is read off
the significant tokens in front: a module is named right behind the keyword that starts one, and
right behind the colon of a label that follows the keyword that ends one. So it can be said of the
tokens of a text alone which of them a new name takes the place of.

## Main definitions

* `SpellsWord word`, `LexesAsIdentifier name`: the text is one word, or one identifier
* `NamesModule before`: a module is named behind significant tokens of these kinds
* `NamesAt old ts i t`: the token `t` at the place `i` names a module, which is `old` but for case

## Main results

* `isNamed_behind_iff`: the place behind some lexemes, by the kinds of the significant ones
* `tokens_renameModule`: renaming exchanges the tokens that name the module, and no others
-/

namespace HdlModule

/-! ### Words as tokens -/

/-- The characters are one word: a keyword or an identifier. -/
def SpellsWord (word : List Char) : Prop :=
  ∃ c ds, word = c :: ds ∧ isWordStart c = true ∧ ∀ d ∈ ds, isWordPart d = true

section Words

variable {word rest : List Char}

theorem spellsIdentifier_iff :
    SpellsIdentifier word ↔ SpellsWord word ∧ wordKind word = .identifier := by
  constructor
  · rintro ⟨c, ds, hword, hc, hds, hkind⟩
    exact ⟨⟨c, ds, hword, hc, hds⟩, hkind⟩
  · rintro ⟨⟨c, ds, hword, hc, hds⟩, hkind⟩
    exact ⟨c, ds, hword, hc, hds, hkind⟩

/-- A word is one lexeme, where it does not go on. -/
theorem SpellsWord.lexemes_append (h : SpellsWord word) (hrest : Stops isWordPart rest) :
    lexemes (word ++ rest) = ⟨wordKind word, word⟩ :: lexemes rest := by
  obtain ⟨c, ds, rfl, hc, hds⟩ := h
  exact lexemes_cons_of_leads (.word hc hds hrest)

theorem SpellsIdentifier.spellsWord (h : SpellsIdentifier word) : SpellsWord word :=
  (spellsIdentifier_iff.1 h).1

/-- An identifier is one lexeme, where it does not go on. -/
theorem SpellsIdentifier.lexemes_append (h : SpellsIdentifier word)
    (hrest : Stops isWordPart rest) :
    lexemes (word ++ rest) = ⟨.identifier, word⟩ :: lexemes rest := by
  rw [h.spellsWord.lexemes_append hrest, (spellsIdentifier_iff.1 h).2]

/-- An identifier is one token, if nothing stands around it. -/
theorem SpellsIdentifier.tokens_eq {name : String} (h : SpellsIdentifier name.toList) :
    tokens name = [⟨⟨.identifier, name.toList⟩, 0⟩] := by
  have hlexemes := h.lexemes_append stops_nil
  rw [List.append_nil, lexemes_nil] at hlexemes
  rw [tokens, hlexemes]
  rfl

/-- A token of the kind of a word spells one. -/
theorem spellsWord_of_mem_tokens {text : String} {t : Token} (ht : t ∈ tokens text)
    (hk : t.kind.isWord = true) : SpellsWord t.chars ∧ t.kind = wordKind t.chars := by
  obtain ⟨_, c, ds, _, -, -, hchars, hleads⟩ := (lexed_lexemes text.toList).exists_leads ht
  obtain ⟨hc, hds, -, hkind⟩ := hleads.word_of_isWord hk
  rw [hchars]
  exact ⟨⟨c, ds, rfl, hc, hds⟩, hkind⟩

/-- An identifier of a text spells one. -/
theorem spellsIdentifier_of_mem_tokens {text : String} {t : Token} (ht : t ∈ tokens text)
    (hk : t.kind = .identifier) : SpellsIdentifier t.chars := by
  obtain ⟨hword, hkind⟩ := spellsWord_of_mem_tokens ht (by rw [hk]; rfl)
  exact spellsIdentifier_iff.2 ⟨hword, hkind.symm.trans hk⟩

end Words

/-- The text is one token, an identifier. -/
def LexesAsIdentifier (name : String) : Prop := (tokens name).map (·.kind) = [.identifier]

instance : DecidablePred LexesAsIdentifier :=
  fun name => inferInstanceAs (Decidable ((tokens name).map (·.kind) = [.identifier]))

theorem map_kind_tokens (text : String) :
    (tokens text).map (·.kind) = (lexemes text.toList).map Lexeme.kind := by
  rw [← map_toLexeme_locate 0 (lexemes text.toList), List.map_map]
  rfl

theorem lexesAsIdentifier_iff {name : String} :
    LexesAsIdentifier name ↔ SpellsIdentifier name.toList := by
  constructor
  · intro h
    obtain ⟨t, htokens, hkind⟩ := List.map_eq_singleton_iff.1 h
    have hchars := flatMap_chars_tokens name
    rw [htokens, List.flatMap_singleton] at hchars
    rw [← hchars]
    exact spellsIdentifier_of_mem_tokens (htokens ▸ List.mem_singleton_self t) hkind
  · intro h
    rw [LexesAsIdentifier, h.tokens_eq]
    rfl

/-! ### Places by the tokens in front -/

namespace NamePlace

/-- The place behind some lexemes. -/
def behind (place : NamePlace) (ls : List Lexeme) : NamePlace :=
  ls.foldl (fun place l => place.next l.kind) place

/-- What leads to the places at which a module is named next. -/
theorem next_eq_iff (place : NamePlace) {k : TokenKind} (hk : k.isTrivia = false) :
    (place.next k = behindStart ↔ k = .keyword .moduleStart) ∧
      (place.next k = behindEnd ↔ k = .keyword .moduleEnd) ∧
      (place.next k = behindLabelColon ↔ place = behindEnd ∧ k = .colon) := by
  unfold next
  simp only [hk, Bool.false_eq_true, if_false]
  split
  · simp
  · simp
  · by_cases hplace : place = behindEnd
    · simp [hplace]
    · simp [hplace]
  · simp_all

section Behind

variable (place : NamePlace) (ls : List Lexeme) (l : Lexeme)

@[simp]
theorem behind_nil : place.behind [] = place := rfl

@[simp]
theorem behind_cons : place.behind (l :: ls) = (place.next l.kind).behind ls := rfl

@[simp]
theorem behind_concat : place.behind (ls ++ [l]) = (place.behind ls).next l.kind := by
  simp [behind]

end Behind

/-- The place behind some lexemes of a text, by the last one or two of them that are
significant. -/
theorem behind_eq_iff (ls : List Lexeme) :
    let before := (significant ls).map Lexeme.kind
    (elsewhere.behind ls = behindStart ↔ [.keyword .moduleStart] <:+ before) ∧
      (elsewhere.behind ls = behindEnd ↔ [.keyword .moduleEnd] <:+ before) ∧
      (elsewhere.behind ls = behindLabelColon ↔ [.keyword .moduleEnd, .colon] <:+ before) := by
  -- the place behind a colon depends on the place in front of it, so the three go together
  induction ls using List.reverseRecOn with
  | nil => decide
  | append_singleton ls l ih =>
    obtain ⟨hstart, hend, hcolon⟩ := ih
    rw [behind_concat, significant_append]
    cases hl : l.kind.isTrivia with
    | true =>
      rw [next_of_isTrivia hl, significant_of_isTrivia hl, List.append_nil]
      exact ⟨hstart, hend, hcolon⟩
    | false =>
      have hkind : (significant [l]).map Lexeme.kind = [l.kind] := by simp [significant, hl]
      obtain ⟨hnextStart, hnextEnd, hnextColon⟩ := next_eq_iff (elsewhere.behind ls) hl
      rw [List.map_append, hkind, hnextStart, hnextEnd, hnextColon, hend]
      -- read backwards, the lists start with the kinds to be compared
      simp only [← List.reverse_prefix, List.reverse_append, List.reverse_cons,
        List.reverse_nil, List.nil_append, List.singleton_append, List.cons_prefix_cons,
        List.nil_prefix, and_true]
      exact ⟨eq_comm, eq_comm, and_comm.trans (and_congr_left' eq_comm)⟩

end NamePlace

/-- Behind significant tokens of these kinds, in this order, a module is named: behind the keyword
that starts one, and behind the colon of an end label. -/
def NamesModule (before : List TokenKind) : Prop :=
  [.keyword .moduleStart] <:+ before ∨ [.keyword .moduleEnd, .colon] <:+ before

instance : DecidablePred NamesModule :=
  fun before => inferInstanceAs (Decidable
    ([.keyword .moduleStart] <:+ before ∨ [.keyword .moduleEnd, .colon] <:+ before))

/-- A module is named behind some lexemes of a text as the kinds of the significant ones say. -/
theorem isNamed_behind_iff (ls : List Lexeme) :
    (NamePlace.elsewhere.behind ls).isNamed = true ↔
      NamesModule ((significant ls).map Lexeme.kind) := by
  obtain ⟨hstart, -, hcolon⟩ := NamePlace.behind_eq_iff ls
  rw [NamesModule, ← hstart, ← hcolon]
  cases NamePlace.elsewhere.behind ls <;> simp [NamePlace.isNamed]

/-! ### Renamed tokens -/

/-- A lexeme is renamed by what it is and by the place behind the lexemes in front of it. -/
theorem getElem?_renameLexemes (old new : List Char) (place : NamePlace) (ls : List Lexeme)
    (i : Nat) :
    (renameLexemes old new place ls)[i]? =
      ls[i]?.map (renameLexeme old new (place.behind (ls.take i))) := by
  induction ls generalizing place i with
  | nil => rfl
  | cons l ls ih =>
    cases i with
    | zero => rfl
    | succ i => simp [ih]

/-- The token `t` at the place `i` of a text names a module, and the name is `old` but for ASCII
case. -/
def NamesAt (old : String) (ts : List Token) (i : Nat) (t : Token) : Prop :=
  t.kind = .identifier ∧ equalIgnoringCase t.chars old.toList = true ∧
    NamesModule (((ts.take i).filter fun t => !t.kind.isTrivia).map (·.kind))

instance (old : String) (ts : List Token) (i : Nat) (t : Token) :
    Decidable (NamesAt old ts i t) :=
  inferInstanceAs (Decidable (_ ∧ _ ∧ _))

theorem map_kind_take_tokens (text : String) (i : Nat) :
    (((tokens text).take i).filter fun t => !t.kind.isTrivia).map (·.kind) =
      (significant ((lexemes text.toList).take i)).map Lexeme.kind := by
  rw [← map_toLexeme_locate 0 (lexemes text.toList), ← List.map_take, ← map_toLexeme_filter,
    List.map_map]
  rfl

/-- The lexeme of a token is at the place of the token. -/
theorem getElem?_lexemes_of_tokens {text : String} {i : Nat} {t : Token}
    (h : (tokens text)[i]? = some t) : (lexemes text.toList)[i]? = some t.toLexeme := by
  rw [← map_toLexeme_locate 0 (lexemes text.toList), List.getElem?_map]
  exact congrArg (Option.map Token.toLexeme) h

/-- A token of a renamed text is the renamed token of the text. -/
theorem toLexeme_renameModule {text old new : String} (hnew : SpellsIdentifier new.toList) {i : Nat}
    {t t' : Token} (ht : (tokens text)[i]? = some t)
    (ht' : (tokens (renameModule text old new))[i]? = some t') :
    t'.toLexeme = renameLexeme old.toList new.toList
      (NamePlace.elsewhere.behind ((lexemes text.toList).take i)) t.toLexeme := by
  have hlexeme := getElem?_lexemes_of_tokens ht'
  rw [lexemes_renameModule text old new hnew, getElem?_renameLexemes,
    getElem?_lexemes_of_tokens ht] at hlexeme
  exact (Option.some.inj hlexeme).symm

/-- **Renaming exchanges the tokens that name the module, and no others.** The new name has to be
one token, an identifier. Then the text that is put together falls into as many tokens as before,
of the same kinds, blanks and comments among them. A token that names the module by the old name,
but for case, has the new name for its text, and every other token has the text that it had. -/
theorem tokens_renameModule (text old new : String) (hnew : LexesAsIdentifier new) :
    (tokens (renameModule text old new)).length = (tokens text).length ∧
      (tokens (renameModule text old new)).map (·.kind) = (tokens text).map (·.kind) ∧
      ∀ i t t', (tokens text)[i]? = some t → (tokens (renameModule text old new))[i]? = some t' →
        t'.text = if NamesAt old (tokens text) i t then new else t.text := by
  have hspells := lexesAsIdentifier_iff.1 hnew
  have hkinds : (tokens (renameModule text old new)).map (·.kind) =
      (tokens text).map (·.kind) := by
    rw [map_kind_tokens, map_kind_tokens, lexemes_renameModule text old new hspells,
      map_kind_renameLexemes]
  refine ⟨?_, hkinds, fun i t t' ht ht' => ?_⟩
  · have hlength := congrArg List.length hkinds
    rwa [List.length_map, List.length_map] at hlength
  · have hrename := toLexeme_renameModule hspells ht ht'
    have hiff : (NamePlace.elsewhere.behind ((lexemes text.toList).take i)).isNamed = true ∧
        t.kind = .identifier ∧ equalIgnoringCase t.chars old.toList = true ↔
          NamesAt old (tokens text) i t := by
      rw [isNamed_behind_iff, ← map_kind_take_tokens, NamesAt]
      tauto
    rw [Token.text, hrename, renameLexeme]
    by_cases h : NamesAt old (tokens text) i t
    · rw [if_pos h, if_pos (by simpa [and_assoc] using hiff.2 h), Lexeme.text,
        String.ofList_toList]
    · rw [if_neg h, if_neg (by simpa [and_assoc] using mt hiff.1 h), Token.text]

/-- A prototype names the module behind a comment and in the other case, the module that follows
has a broken string in its ports and a label. The `A` behind the label is no name. -/
theorem tokens_renameModule_prototype :
    let text := "extern module // a\na(); module A(\"A\n); endmodule :A A"
    let renamed := tokens (renameModule text "A" "b$")
    LexesAsIdentifier "b$" ∧ renamed.length = 26 ∧
      (∃ t, renamed[6]? = some t ∧ t.text = "b$") ∧
      (∃ t, renamed[23]? = some t ∧ t.text = "b$") ∧
      ∃ t, renamed[25]? = some t ∧ t.text = "A" := by
  intro text renamed
  have hnew : LexesAsIdentifier "b$" := by decide +kernel
  obtain ⟨hlength, -, htexts⟩ := tokens_renameModule text "A" "b$" hnew
  have hexists : ∀ i, i < renamed.length → ∃ t, renamed[i]? = some t :=
    fun i hi => ⟨renamed[i], List.getElem?_eq_getElem hi⟩
  have hcount : renamed.length = 26 := hlength.trans (by decide +kernel)
  obtain ⟨name, hname⟩ := hexists 6 (by rw [hcount]; decide)
  obtain ⟨label, hlabel⟩ := hexists 23 (by rw [hcount]; decide)
  obtain ⟨last, hlast⟩ := hexists 25 (by rw [hcount]; decide)
  refine ⟨hnew, hcount, ⟨name, hname, ?_⟩, ⟨label, hlabel, ?_⟩, last, hlast, ?_⟩
  · exact (htexts 6 ⟨⟨.identifier, ['a']⟩, 19⟩ name (by decide +kernel) hname).trans
      (if_pos (by decide +kernel))
  · exact (htexts 23 ⟨⟨.identifier, ['A']⟩, 50⟩ label (by decide +kernel) hlabel).trans
      (if_pos (by decide +kernel))
  · exact (htexts 25 ⟨⟨.identifier, ['A']⟩, 52⟩ last (by decide +kernel) hlast).trans
      (if_neg (by decide +kernel))

end HdlModule
