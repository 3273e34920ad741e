import HdlModule.Proofs.Lexing.Lexed
import HdlModule.Proofs.Lexing.Rules
import HdlModule.Token.Basic

/-!
# The case of letters

No class of characters by which a text is taken apart tells letters in upper case from those in
lower case. So a text in lower case falls into the lexemes of the text itself, each in lower case,
of the same kinds and at the same places. Texts that are equal but for the case of letters are taken
apart alike.

## Main definitions

* `CaseFree p`: the class does not look at the case of letters
* `lowered cs`, `Lexeme.lowered`: characters, and those of a lexeme, in lower case
* `RecasesKeywords source source'`: the texts are equal but for the case of letters in keywords

## Main results

* `Leads.lowered`, `lexemes_lowered`: lexing does not look at the case of letters
* `forall₂_recased_significantTokens`: the tokens of a text with keywords in another case
-/

namespace HdlModule

/-! ### Classes of characters -/

section Classes

variable {p : Char → Bool} {c x : Char}

/-- The class does not look at the case of letters. -/
def CaseFree (p : Char → Bool) : Prop := ∀ c, p c.toLower = p c

/-- It is enough to look at the letters in upper case. -/
theorem caseFree_of_letters
    (h : ∀ n < 26, p (Char.ofNat (65 + n)).toLower = p (Char.ofNat (65 + n))) : CaseFree p := by
  intro c
  by_cases hc : c.isUpper = true
  · have hrange := isUpper_iff.1 hc
    have hletter := h (c.toNat - 65) (by omega)
    rwa [Nat.add_sub_cancel' hrange.1, Char.ofNat_toNat] at hletter
  · rw [toLower_of_not_isUpper hc]

theorem caseFree_isSpace : CaseFree isSpace := caseFree_of_letters (by decide)

theorem caseFree_not_isLineEnd : CaseFree (!isLineEnd ·) := caseFree_of_letters (by decide)

theorem caseFree_isWordStart : CaseFree isWordStart := caseFree_of_letters (by decide)

theorem caseFree_isDirectivePart : CaseFree isDirectivePart := caseFree_of_letters (by decide)

theorem caseFree_isWordPart : CaseFree isWordPart := caseFree_of_letters (by decide)

theorem caseFree_isDigit : CaseFree Char.isDigit := caseFree_of_letters (by decide)

theorem caseFree_isDecimalPart : CaseFree isDecimalPart := caseFree_of_letters (by decide)

theorem caseFree_isBasedDigit : CaseFree isBasedDigit := caseFree_of_letters (by decide +kernel)

theorem caseFree_isBaseLetter : CaseFree isBaseLetter := caseFree_of_letters (by decide +kernel)

theorem caseFree_isSignLetter : CaseFree isSignLetter := caseFree_of_letters (by decide)

/-- A character that is no letter is the only one that it is in lower case. -/
theorem toLower_eq_iff_of_caseFree (hx : CaseFree (· == x)) : c.toLower = x ↔ c = x := by
  have hc : (c.toLower == x) = (c == x) := hx c
  rw [Bool.eq_iff_iff, beq_iff_eq, beq_iff_eq] at hc
  exact hc

theorem toLower_toLower (c : Char) : c.toLower.toLower = c.toLower := by
  by_cases hc : c.isUpper = true
  · have hrange := isUpper_iff.1 hc
    refine toLower_of_not_isUpper ?_
    rw [isUpper_iff, toNat_toLower hc]
    omega
  · rw [toLower_of_not_isUpper hc, toLower_of_not_isUpper hc]

end Classes

/-! ### Characters in lower case -/

section Lowered

variable {cs rest ds tail : List Char}

/-- The characters in lower case. -/
def lowered (cs : List Char) : List Char := cs.map Char.toLower

@[simp]
theorem lowered_nil : lowered [] = [] := rfl

@[simp]
theorem lowered_cons (c : Char) (cs : List Char) : lowered (c :: cs) = c.toLower :: lowered cs := rfl

@[simp]
theorem lowered_append (cs ds : List Char) : lowered (cs ++ ds) = lowered cs ++ lowered ds :=
  List.map_append

@[simp]
theorem length_lowered (cs : List Char) : (lowered cs).length = cs.length := List.length_map _

theorem forall_lowered_iff {p : Char → Bool} (hp : CaseFree p) :
    (∀ d ∈ lowered ds, p d = true) ↔ ∀ d ∈ ds, p d = true := by
  simp only [lowered, List.forall_mem_map, hp _]

theorem Stops.lowered {p : Char → Bool} (hp : CaseFree p) (h : Stops p rest) :
    Stops p (lowered rest) := by
  cases rest with
  | nil => exact stops_nil
  | cons c cs => exact stops_cons.2 ((hp c).trans (stops_cons.1 h))

theorem head?_lowered_ne {x : Char} (hx : CaseFree (· == x)) (h : ∀ c ∈ rest.head?, c ≠ x) :
    ∀ c ∈ (lowered rest).head?, c ≠ x := by
  cases rest with
  | nil => simp
  | cons c cs => simpa [toLower_eq_iff_of_caseFree hx] using h

/-- A based literal goes on in lower case as it does in any case. -/
theorem basedTail_lowered_iff : BasedTail (lowered tail) ↔ BasedTail tail := by
  constructor
  · intro h
    generalize hlow : lowered tail = low at h
    cases h with
    | unsigned hbase hdigit hds =>
      obtain ⟨base, tail, rfl, rfl, htail⟩ := List.map_eq_cons_iff.1 hlow
      obtain ⟨digit, ds, rfl, rfl, rfl⟩ := List.map_eq_cons_iff.1 htail
      rw [caseFree_isBaseLetter] at hbase
      rw [caseFree_isBasedDigit] at hdigit
      exact .unsigned hbase hdigit ((forall_lowered_iff caseFree_isBasedDigit).1 hds)
    | signed hsign hbase hdigit hds =>
      obtain ⟨sign, tail₁, rfl, rfl, htail₁⟩ := List.map_eq_cons_iff.1 hlow
      obtain ⟨base, tail₂, rfl, rfl, htail₂⟩ := List.map_eq_cons_iff.1 htail₁
      obtain ⟨digit, ds, rfl, rfl, rfl⟩ := List.map_eq_cons_iff.1 htail₂
      rw [caseFree_isSignLetter] at hsign
      rw [caseFree_isBaseLetter] at hbase
      rw [caseFree_isBasedDigit] at hdigit
      exact .signed hsign hbase hdigit ((forall_lowered_iff caseFree_isBasedDigit).1 hds)
  · intro h
    cases h with
    | unsigned hbase hdigit hds =>
      rw [← caseFree_isBaseLetter] at hbase
      rw [← caseFree_isBasedDigit] at hdigit
      exact .unsigned hbase hdigit ((forall_lowered_iff caseFree_isBasedDigit).2 hds)
    | signed hsign hbase hdigit hds =>
      rw [← caseFree_isSignLetter] at hsign
      rw [← caseFree_isBaseLetter] at hbase
      rw [← caseFree_isBasedDigit] at hdigit
      exact .signed hsign hbase hdigit ((forall_lowered_iff caseFree_isBasedDigit).2 hds)

theorem StopsBased.lowered (h : StopsBased rest) : StopsBased (lowered rest) := by
  intro tail hprefix htail
  obtain ⟨tail, hprefix', rfl⟩ := List.prefix_map_iff.1 hprefix
  exact h tail hprefix' (basedTail_lowered_iff.1 htail)

/-- An item of a string is one in lower case as it is in any case. -/
theorem stringItem_lowered_iff {item : List Char} :
    StringItem (lowered item) ↔ StringItem item := by
  have hquote : ∀ c : Char, c.toLower = '\x22' ↔ c = '\x22' :=
    fun _ => toLower_eq_iff_of_caseFree (caseFree_of_letters (by decide))
  have hslash : ∀ c : Char, c.toLower = '\x5c' ↔ c = '\x5c' :=
    fun _ => toLower_eq_iff_of_caseFree (caseFree_of_letters (by decide))
  have hnewline : ∀ c : Char, c.toLower = '\n' ↔ c = '\n' :=
    fun _ => toLower_eq_iff_of_caseFree (caseFree_of_letters (by decide))
  have hend : ∀ c : Char, isLineEnd c.toLower = isLineEnd c := caseFree_of_letters (by decide)
  constructor
  · intro h
    generalize hlow : lowered item = low at h
    cases h with
    | plain hplain hescape hinside =>
      obtain ⟨c, rfl, rfl⟩ := List.map_eq_singleton_iff.1 hlow
      rw [hend] at hinside
      exact .plain (mt (hquote c).2 hplain) (mt (hslash c).2 hescape) hinside
    | escaped hc =>
      obtain ⟨b, rest, rfl, hb, hrest⟩ := List.map_eq_cons_iff.1 hlow
      obtain ⟨c, rfl, rfl⟩ := List.map_eq_singleton_iff.1 hrest
      rw [(hslash b).1 hb]
      exact .escaped (mt (hnewline c).2 hc)
  · intro h
    cases h with
    | plain hplain hescape hinside =>
      rw [← hend] at hinside
      exact .plain (mt (hquote _).1 hplain) (mt (hslash _).1 hescape) hinside
    | escaped hc => exact .escaped (mt (hnewline _).1 hc)

theorem StringItems.lowered (h : StringItems ds) : StringItems (lowered ds) := by
  induction h with
  | nil => exact .nil
  | cons hitem _ ih =>
    rw [lowered_append]
    exact .cons (stringItem_lowered_iff.2 hitem) ih

theorem StopsItem.lowered (h : StopsItem rest) : StopsItem (lowered rest) := by
  intro item hprefix hitem
  obtain ⟨item, hprefix', rfl⟩ := List.prefix_map_iff.1 hprefix
  exact h item hprefix' (stringItem_lowered_iff.1 hitem)

end Lowered

/-! ### Lexemes in lower case -/

section Lexemes

variable {c : Char} {ds rest : List Char} {k : TokenKind}

theorem wordKind_lowered (word : List Char) : wordKind (lowered word) = wordKind word := by
  have hword : (lowered word).map Char.toLower = word.map Char.toLower := by
    rw [lowered, List.map_map]
    exact List.map_congr_left fun c _ => toLower_toLower c
  rw [wordKind, wordKind, Keyword.ofWord?, Keyword.ofWord?, hword]

theorem StandsAlone.toLower_eq (h : StandsAlone c) : c.toLower = c := by
  refine toLower_of_not_isUpper fun hc => ?_
  -- a letter in upper case starts a word, which no such character does
  have hword : isWordStart c = true := by
    show ((c.isUpper || c.isLower) || c == '_') = true
    rw [hc]
    rfl
  rw [h.not_word] at hword
  cases hword

/-- **A lexeme in lower case is a lexeme of the same kind.** -/
theorem Leads.lowered (h : Leads c ds rest k) :
    Leads c.toLower (lowered ds) (lowered rest) k := by
  cases h with
  | space hc hds hrest =>
    exact .space ((caseFree_isSpace c).trans hc) ((forall_lowered_iff caseFree_isSpace).2 hds)
      (hrest.lowered caseFree_isSpace)
  | word hc hds hrest =>
    rw [← wordKind_lowered]
    exact .word ((caseFree_isWordStart c).trans hc) ((forall_lowered_iff caseFree_isWordPart).2 hds)
      (hrest.lowered caseFree_isWordPart)
  | integer hc hds hrest hbased =>
    refine .integer ((caseFree_isDigit c).trans hc) ((forall_lowered_iff caseFree_isDecimalPart).2 hds)
      (hrest.lowered caseFree_isDecimalPart) fun tail htail => ?_
    obtain ⟨b, tail, rfl, hb, rfl⟩ := List.map_eq_cons_iff.1 htail
    obtain rfl := (toLower_eq_iff_of_caseFree (caseFree_of_letters (by decide))).1 hb
    exact (hbased tail rfl).lowered
  | sized hc hds htail hrest =>
    rw [lowered_append, lowered_cons]
    exact .sized ((caseFree_isDigit c).trans hc) ((forall_lowered_iff caseFree_isDecimalPart).2 hds)
      (basedTail_lowered_iff.2 htail) (hrest.lowered caseFree_isBasedDigit)
  | unsized hds hrest =>
    exact .unsized (basedTail_lowered_iff.2 hds) (hrest.lowered caseFree_isBasedDigit)
  | apostrophe hrest => exact .apostrophe hrest.lowered
  | string hds =>
    rw [lowered_append]
    exact .string hds.lowered
  | broken hds hrest hquote =>
    exact .broken hds.lowered hrest.lowered
      (head?_lowered_ne (caseFree_of_letters (by decide)) hquote)
  | directive hd hds hrest =>
    exact .directive ((caseFree_isWordStart _).trans hd)
      ((forall_lowered_iff caseFree_isDirectivePart).2 hds) (hrest.lowered caseFree_isDirectivePart)
  | backtick hrest => exact .backtick (hrest.lowered caseFree_isWordStart)
  | comment hds hrest =>
    exact .comment ((forall_lowered_iff caseFree_not_isLineEnd).2 hds)
      (hrest.lowered caseFree_not_isLineEnd)
  | blockComment => exact .blockComment
  | slash hrest =>
    refine .slash fun x hx => ⟨?_, ?_⟩
    · exact head?_lowered_ne (caseFree_of_letters (by decide)) (fun y hy => (hrest y hy).1) x hx
    · exact head?_lowered_ne (caseFree_of_letters (by decide)) (fun y hy => (hrest y hy).2) x hx
  | doubleColon => exact .doubleColon
  | colon hrest => exact .colon (head?_lowered_ne (caseFree_of_letters (by decide)) hrest)
  | alone hc =>
    rw [hc.toLower_eq]
    exact .alone hc

/-- A lexeme in lower case. -/
def Lexeme.lowered (l : Lexeme) : Lexeme := ⟨l.kind, HdlModule.lowered l.chars⟩

/-- **Lexing does not look at the case of letters**: a text in lower case falls into the lexemes of
the text, each in lower case. -/
theorem lexemes_lowered (cs : List Char) :
    lexemes (lowered cs) = (lexemes cs).map Lexeme.lowered := by
  rw [lexemes_eq_iff]
  have hlexed := lexed_lexemes cs
  generalize lexemes cs = ls at hlexed
  induction hlexed with
  | nil => exact .nil
  | cons hleads _ ih =>
    rw [lowered_cons, lowered_append]
    exact .cons hleads.lowered ih

end Lexemes

/-! ### Keywords in another case -/

section Recased

variable {l l' : Lexeme} {t t' : Token} {source source' : String}

/-- The lexemes are equal, or they are a keyword in two cases of its letters. -/
def Lexeme.Recased (l l' : Lexeme) : Prop :=
  l'.lowered = l.lowered ∧ (l.kind.isKeyword = false → l' = l)

theorem Lexeme.Recased.kind_eq (h : l.Recased l') : l'.kind = l.kind := by
  have hkind := congrArg Lexeme.kind h.1
  exact hkind

/-- The tokens are equal, or they are a keyword in two cases of its letters, at one place. -/
def Token.Recased (t t' : Token) : Prop := t'.start = t.start ∧ t.toLexeme.Recased t'.toLexeme

theorem Token.Recased.eq_of_not_keyword (h : t.Recased t') (hk : t.kind.isKeyword = false) :
    t' = t := by
  obtain ⟨hstart, hlexeme⟩ := h
  cases t
  cases t'
  obtain rfl := hlexeme.2 hk
  obtain rfl := hstart
  rfl

/-- The word is that of the token, but for the case of letters if the token is a keyword. -/
def SameWord (t : Token) (word : List Char) : Prop :=
  lowered word = lowered t.chars ∧ (t.kind.isKeyword = false → word = t.chars)

/-- **Only the case of letters in keywords is another**: the second text is put together from the
words of the first one, of which keywords may have letters in another case. -/
def RecasesKeywords (source source' : String) : Prop :=
  ∃ words, source'.toList = words.flatten ∧ List.Forall₂ SameWord (tokens source) words

theorem utf8Size_toLower (c : Char) : c.toLower.utf8Size = c.utf8Size := by
  by_cases hc : c.isUpper = true
  · have hrange := isUpper_iff.1 hc
    have hsize : ∀ d : Char, d.toNat ≤ 127 → d.utf8Size = 1 :=
      fun d hd => Char.utf8Size_eq_one_iff.2 hd
    rw [hsize c (by omega), hsize c.toLower (by rw [toNat_toLower hc]; omega)]
  · rw [toLower_of_not_isUpper hc]

theorem byteLength_lowered (cs : List Char) : byteLength (lowered cs) = byteLength cs := by
  induction cs with
  | nil => rfl
  | cons c cs ih => rw [lowered_cons, byteLength_cons, byteLength_cons, utf8Size_toLower, ih]

/-- A token in lower case. -/
def Token.lowered (t : Token) : Token := ⟨t.toLexeme.lowered, t.start⟩

theorem locate_lowered (offset : Nat) (ls : List Lexeme) :
    locate offset (ls.map Lexeme.lowered) = (locate offset ls).map Token.lowered := by
  induction ls generalizing offset with
  | nil => rfl
  | cons l ls ih =>
    rw [List.map_cons, locate_cons, locate_cons, List.map_cons, ih]
    show _ :: (locate (offset + byteLength (HdlModule.lowered l.chars)) ls).map _ = _
    rw [byteLength_lowered]
    rfl

/-- Texts that are equal but for the case of letters have tokens that are. -/
theorem map_lowered_tokens (h : lowered source'.toList = lowered source.toList) :
    (tokens source').map Token.lowered = (tokens source).map Token.lowered := by
  rw [tokens, tokens, ← locate_lowered, ← locate_lowered, ← lexemes_lowered, ← lexemes_lowered, h]

theorem map_lowered_of_sameWord {ts : List Token} {words : List (List Char)}
    (h : List.Forall₂ SameWord ts words) : words.map lowered = ts.map (lowered ·.chars) := by
  induction h with
  | nil => rfl
  | cons hword _ ih => rw [List.map_cons, List.map_cons, hword.1, ih]

/-- Tokens that are equal in lower case are equal but for keywords if their words are. -/
theorem forall₂_recased_of_sameWord {ts ts' : List Token}
    (hlowered : ts'.map Token.lowered = ts.map Token.lowered)
    (hwords : List.Forall₂ SameWord ts (ts'.map (·.chars))) :
    List.Forall₂ Token.Recased ts ts' := by
  induction ts generalizing ts' with
  | nil =>
    obtain rfl := List.map_eq_nil_iff.1 hlowered
    exact .nil
  | cons t ts ih =>
    obtain ⟨t', ts', rfl, ht, hts⟩ := List.map_eq_cons_iff.1 hlowered
    obtain ⟨hword, hwords⟩ := List.forall₂_cons.1 hwords
    have hstart := congrArg Token.start ht
    have hlexeme := congrArg Token.toLexeme ht
    have hkind := congrArg Lexeme.kind hlexeme
    refine .cons ⟨hstart, hlexeme, fun hk => ?_⟩ (ih hts hwords)
    have hchars : t'.chars = t.chars := hword.2 hk
    exact congrArg₂ Lexeme.mk hkind hchars

theorem RecasesKeywords.lowered_toList (h : RecasesKeywords source source') :
    lowered source'.toList = lowered source.toList := by
  obtain ⟨words, htext, hwords⟩ := h
  rw [htext, ← flatMap_chars_tokens source, lowered, lowered, List.map_flatten, List.map_flatMap,
    List.flatMap_def]
  exact congrArg List.flatten (map_lowered_of_sameWord hwords)

/-- The words of which the second text is put together are its own tokens. -/
theorem recasesKeywords_iff :
    RecasesKeywords source source' ↔
      List.Forall₂ SameWord (tokens source) ((tokens source').map (·.chars)) := by
  constructor
  · intro h
    have hlowered := map_lowered_tokens h.lowered_toList
    obtain ⟨words, htext, hwords⟩ := h
    -- the words are as long as the tokens, and both make up the text
    have hlength : words.map List.length = ((tokens source').map (·.chars)).map List.length := by
      calc words.map List.length
          = (words.map lowered).map List.length := by simp [List.map_map, Function.comp_def]
        _ = ((tokens source).map Token.lowered).map (·.chars.length) := by
            rw [map_lowered_of_sameWord hwords, List.map_map, List.map_map]
            rfl
        _ = ((tokens source').map (·.chars)).map List.length := by
            rw [← hlowered, List.map_map, List.map_map]
            exact List.map_congr_left fun t _ => length_lowered t.chars
    have hchars : words = (tokens source').map (·.chars) := by
      refine List.eq_iff_flatten_eq.2 ⟨?_, hlength⟩
      rw [← htext, ← flatMap_chars_tokens source', List.flatMap_def]
    rwa [hchars] at hwords
  · intro h
    refine ⟨_, ?_, h⟩
    rw [← flatMap_chars_tokens source', List.flatMap_def]

instance : DecidableRel SameWord := fun t word =>
  inferInstanceAs (Decidable (lowered word = lowered t.chars ∧
    (t.kind.isKeyword = false → word = t.chars)))

instance : DecidableRel RecasesKeywords := fun _ _ => decidable_of_iff _ recasesKeywords_iff.symm

/-- **The tokens of a text with keywords in another case** are the tokens of the text with keywords
in another case, at the same places. -/
theorem forall₂_recased_tokens (h : RecasesKeywords source source') :
    List.Forall₂ Token.Recased (tokens source) (tokens source') :=
  forall₂_recased_of_sameWord (map_lowered_tokens h.lowered_toList) (recasesKeywords_iff.1 h)

/-- The significant tokens of a text with keywords in another case. -/
theorem forall₂_recased_significantTokens (h : RecasesKeywords source source') :
    List.Forall₂ Token.Recased (significantTokens source) (significantTokens source') := by
  refine List.rel_filter (fun t t' ht => ?_) (forall₂_recased_tokens h)
  have hkind : t'.kind = t.kind := ht.2.kind_eq
  simp only [hkind]

end Recased

end HdlModule
