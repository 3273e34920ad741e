import HdlModule.Proofs.Lexing.Layout
import HdlModule.Proofs.Lexing.Rename
import HdlModule.Proofs.Lexing.Rules

/-!
# The longest match

Where some rule matches, the token is the longest word that any rule matches, of the kind of a rule
that matches it; the kind of a keyword goes before that of an identifier. Where no rule matches,
the token is invalid.

A word of a rule may be a part of a longer word of the same rule or of another one, as the digits
of `8'hF` are. So a word is made longer until it is the lexeme that leads the text.

## Main definitions

* `LongestMatch cs k word`: the longest match in front of a text
* `Unmatched cs k word`: the invalid lexeme in front of a text that no rule matches
* `LeadsFor n cs`: a lexeme of at least `n` characters leads the text, and it is not invalid

## Main results

* `RuleWord.leadsFor`: a text that starts with a word of a rule is led by a lexeme that long
* `tokens_longestMatch`: every token is the longest match, or invalid where no rule matches
-/

namespace HdlModule

/-! ### Keywords -/

section Keywords

variable {word : List Char} {k : Keyword}

/-- The word that a keyword is spelled by is found. -/
theorem Spells.wordKind_eq (h : Spells word k) : wordKind word = .keyword k := by
  have hfind : ∀ k ∈ Keyword.all, Keyword.all.find? (fun k' => k'.text == k.text) = some k := by
    decide +kernel
  have htext : String.ofList (word.map Char.toLower) = k.text := by
    rw [show word.map Char.toLower = k.text.toList from h, String.ofList_toList]
  rw [wordKind, Keyword.ofWord?, htext, hfind k k.mem_all]

theorem spells_of_wordKind (h : wordKind word = .keyword k) : Spells word k := by
  rw [Spells, (wordKind_eq_keyword h).2, String.toList_ofList]

/-- Keywords are made of letters. -/
theorem Spells.isAlpha (h : Spells word k) {c : Char} (hc : c ∈ word) : c.isAlpha = true := by
  have hlower : ∀ k ∈ Keyword.all, k.text.toList.all Char.isLower = true := by
    decide +kernel
  have hmem : c.toLower ∈ k.text.toList := by
    rw [← show word.map Char.toLower = k.text.toList from h]
    exact List.mem_map_of_mem hc
  exact isAlpha_of_toLower (List.all_eq_true.1 (hlower k k.mem_all) _ hmem)

/-- A keyword has the shape of an identifier. -/
theorem Spells.exists_cons (h : Spells word k) :
    ∃ c ds, word = c :: ds ∧ isWordStart c = true ∧ ∀ d ∈ ds, isWordPart d = true := by
  have hne : ∀ k ∈ Keyword.all, k.text.toList ≠ [] := by
    decide +kernel
  obtain ⟨c, ds, rfl⟩ : ∃ c ds, word = c :: ds := by
    refine List.exists_cons_of_ne_nil ?_
    rintro rfl
    exact hne k k.mem_all h.symm
  refine ⟨c, ds, rfl, ?_, fun d hd => ?_⟩
  · rw [isWordStart, h.isAlpha List.mem_cons_self, Bool.true_or]
  · simp [isWordPart, isDirectivePart, Char.isAlphanum, h.isAlpha (List.mem_cons_of_mem c hd)]

end Keywords

/-! ### Punctuation -/

section Punctuation

variable {c : Char}

instance : Decidable (StandsAlone c) :=
  decidable_of_iff (isSpace c = false ∧ isWordStart c = false ∧ c.isDigit = false ∧
      c ∉ ['\x27', '\x22', '\x60', '/', ':'])
    ⟨fun h => ⟨h.1, h.2.1, h.2.2.1, h.2.2.2⟩, fun h => ⟨h.1, h.2, h.3, h.4⟩⟩

/-- A mark is a character that stands alone, or starts with a slash or a colon. -/
theorem alone_of_mem_marks : ∀ mark ∈ marks, mark.2 ∈ ["::", ":", "/", "/*"] ∨
    ∃ c, mark.2.toList = [c] ∧ StandsAlone c ∧ punctuation c = mark.1 ∧ mark.1 ≠ .invalid := by
  intro mark hmark
  simp only [marks, List.mem_cons, List.not_mem_nil, or_false] at hmark
  rcases hmark with rfl | rfl | rfl | rfl | rfl | rfl | rfl | rfl | rfl | rfl | rfl | rfl | rfl |
    rfl | rfl | rfl | rfl | rfl
  all_goals first
    | exact Or.inl (by decide)
    | exact Or.inr ⟨_, rfl, by decide, rfl, by decide⟩

theorem mem_marks_of_punctuation (h : punctuation c ≠ .invalid) :
    (punctuation c, String.singleton c) ∈ marks := by
  revert h
  unfold punctuation
  split
  all_goals first
    | exact fun h => absurd rfl h
    | exact fun _ => by decide

end Punctuation

/-! ### Words are made longer -/

/-- A lexeme of at least `n` characters leads the text, and it is not invalid. -/
def LeadsFor (n : Nat) (cs : List Char) : Prop :=
  ∃ c ds rest k, cs = c :: (ds ++ rest) ∧ Leads c ds rest k ∧ n ≤ ds.length + 1 ∧ k ≠ .invalid

section LeadsFor

variable {c : Char} {ds word : List Char} {k : TokenKind}

theorem LeadsFor.of_leads {rest : List Char} {n : Nat} (h : Leads c ds rest k)
    (hn : n ≤ ds.length + 1) (hk : k ≠ .invalid) : LeadsFor n (c :: (ds ++ rest)) :=
  ⟨c, ds, rest, k, rfl, h, hn, hk⟩

/-- A run of a class is made longer, up to the first character of another class. -/
theorem exists_longer_run {p : Char → Bool} (hds : ∀ d ∈ ds, p d = true) (more : List Char) :
    ∃ es rest, ds ++ more = es ++ rest ∧ ds.length ≤ es.length ∧ (∀ d ∈ es, p d = true) ∧
      Stops p rest := by
  obtain ⟨es, rest, rfl, hes, hrest⟩ := exists_run p more
  refine ⟨ds ++ es, rest, (List.append_assoc ..).symm, by simp, fun d hd => ?_, hrest⟩
  exact (List.mem_append.1 hd).elim (hds d) (hes d)

theorem exists_leads_word (hc : isWordStart c = true) (hds : ∀ d ∈ ds, isWordPart d = true)
    (more : List Char) : ∃ es rest, ds ++ more = es ++ rest ∧ ds.length ≤ es.length ∧
      Leads c es rest (wordKind (c :: es)) := by
  obtain ⟨es, rest, heq, hle, hes, hrest⟩ := exists_longer_run hds more
  exact ⟨es, rest, heq, hle, .word hc hes hrest⟩

theorem leadsFor_word (hc : isWordStart c = true) (hds : ∀ d ∈ ds, isWordPart d = true)
    (more : List Char) : LeadsFor (c :: ds).length (c :: ds ++ more) := by
  obtain ⟨es, rest, heq, hle, hleads⟩ := exists_leads_word hc hds more
  rw [List.cons_append, heq]
  refine .of_leads hleads (Nat.succ_le_succ hle) fun hinvalid => ?_
  have hword := wordKind_isWord (c :: es)
  rw [hinvalid] at hword
  cases hword

theorem leadsFor_integer (hc : c.isDigit = true) (hds : ∀ d ∈ ds, isDecimalPart d = true)
    (more : List Char) : LeadsFor (c :: ds).length (c :: ds ++ more) := by
  obtain ⟨es, rest, heq, hle, hes, hrest⟩ := exists_longer_run hds more
  obtain ⟨es', rest', k, heq', hleads, hprefix, hk⟩ := exists_leads_digit hc hes hrest
  rw [List.cons_append, heq, heq']
  refine .of_leads hleads (Nat.succ_le_succ (hle.trans hprefix.length_le)) ?_
  rintro rfl
  cases hk

/-- The digits of a based literal go on behind a word that stops among them. -/
theorem exists_longer_basedTail {tail : List Char} (h : BasedTail tail) (more : List Char) :
    ∃ tail' rest, tail ++ more = tail' ++ rest ∧ tail.length ≤ tail'.length ∧ BasedTail tail' ∧
      Stops isBasedDigit rest := by
  obtain ⟨es, rest, rfl, hes, hrest⟩ := exists_run isBasedDigit more
  exact ⟨tail ++ es, rest, (List.append_assoc ..).symm, by simp, h.append_digits hes, hrest⟩

theorem leadsFor_mark {mark : TokenKind × String} (hmark : mark ∈ marks) (more : List Char) :
    LeadsFor mark.2.toList.length (mark.2.toList ++ more) := by
  rcases alone_of_mem_marks mark hmark with hmem | ⟨c, htext, hc, hkind, hvalid⟩
  · simp only [List.mem_cons, List.not_mem_nil, or_false] at hmem
    rcases hmem with htext | htext | htext | htext <;> rw [htext]
    · exact .of_leads .doubleColon (by decide) (by decide)
    · show LeadsFor 1 (':' :: more)
      rcases starts_or_not ':' more with ⟨more, rfl⟩ | hcolon
      · exact .of_leads .doubleColon (by decide) (by decide)
      · exact .of_leads (.colon hcolon) (by decide) (by decide)
    · show LeadsFor 1 ('/' :: more)
      rcases starts_or_not '/' more with ⟨more, rfl⟩ | hslash
      · obtain ⟨ds, rest, rfl, hds, hrest⟩ := exists_run (!isLineEnd ·) more
        exact .of_leads (.comment hds hrest) (Nat.le_add_left ..) (by decide)
      · rcases starts_or_not '*' more with ⟨more, rfl⟩ | hstar
        · exact .of_leads .blockComment (by decide) (by decide)
        · exact .of_leads (.slash fun c hc => ⟨hslash c hc, hstar c hc⟩) (by decide) (by decide)
    · exact .of_leads .blockComment (by decide) (by decide)
  · rw [htext]
    exact .of_leads (.alone hc) (Nat.le_refl 1) (hkind ▸ hvalid)

/-- **A text that starts with a word of a rule is led by a lexeme that long.** -/
theorem RuleWord.leadsFor (h : RuleWord k word) (more : List Char) :
    LeadsFor word.length (word ++ more) := by
  cases h with
  | space hc hds =>
    obtain ⟨es, rest, heq, hle, hes, hrest⟩ := exists_longer_run hds more
    rw [List.cons_append, heq]
    exact .of_leads (.space hc hes hrest) (Nat.succ_le_succ hle) (by decide)
  | comment hds =>
    obtain ⟨es, rest, heq, hle, hes, hrest⟩ := exists_longer_run hds more
    rw [List.cons_append, List.cons_append, heq]
    exact .of_leads (.comment hes hrest) (Nat.succ_le_succ (Nat.succ_le_succ hle)) (by decide)
  | identifier hc hds => exact leadsFor_word hc hds more
  | integer hc hds => exact leadsFor_integer hc hds more
  | @sized c ds tail hc hds htail =>
    obtain ⟨tail', rest, heq, hle, htail', hrest⟩ := exists_longer_basedTail htail more
    have htext : c :: (ds ++ '\x27' :: tail) ++ more = c :: (ds ++ '\x27' :: tail' ++ rest) := by
      simp [heq]
    rw [htext]
    refine .of_leads (.sized hc hds htail' hrest) ?_ (by decide)
    simp only [List.length_cons, List.length_append]
    omega
  | unsized htail =>
    obtain ⟨tail', rest, heq, hle, htail', hrest⟩ := exists_longer_basedTail htail more
    rw [List.cons_append, heq]
    exact .of_leads (.unsized htail' hrest) (Nat.succ_le_succ hle) (by decide)
  | string hds => exact .of_leads (.string hds) (Nat.le_refl _) (by decide)
  | directive hd hds =>
    obtain ⟨es, rest, heq, hle, hes, hrest⟩ := exists_longer_run hds more
    rw [List.cons_append, List.cons_append, heq]
    exact .of_leads (.directive hd hes hrest) (Nat.succ_le_succ (Nat.succ_le_succ hle)) (by decide)
  | mark hmark => exact leadsFor_mark hmark more
  | keyword hword =>
    obtain ⟨c, ds, rfl, hc, hds⟩ := hword.exists_cons
    exact leadsFor_word hc hds more

end LeadsFor

/-! ### The lexeme that leads a text -/

section Leads

variable {c : Char} {ds rest word : List Char} {k k' : TokenKind}

/-- A lexeme that is not invalid is a word of a rule of its kind. -/
theorem Leads.ruleWord (h : Leads c ds rest k) (hk : k ≠ .invalid) : RuleWord k (c :: ds) := by
  cases h with
  | space hc hds => exact .space hc hds
  | word hc hds =>
    cases hkind : wordKind (c :: ds) with
    | identifier => exact .identifier hc hds
    | keyword k => exact .keyword (spells_of_wordKind hkind)
    | _ =>
      have hword := wordKind_isWord (c :: ds)
      rw [hkind] at hword
      cases hword
  | integer hc hds => exact .integer hc hds
  | sized hc hds htail => exact .sized hc hds htail
  | unsized htail => exact .unsized htail
  | string hds => exact .string hds
  | directive hd hds => exact .directive hd hds
  | comment hds => exact .comment hds
  | blockComment => exact @RuleWord.mark .blockCommentStart "/*" (by decide)
  | slash => exact @RuleWord.mark .slash "/" (by decide)
  | doubleColon => exact @RuleWord.mark .doubleColon "::" (by decide)
  | colon => exact @RuleWord.mark .colon ":" (by decide)
  | alone =>
    have hword := RuleWord.mark (mem_marks_of_punctuation hk)
    rwa [String.toList_singleton] at hword
  | apostrophe | broken | backtick => exact absurd rfl hk

/-- No rule matches a longer word than the lexeme that leads the text, and none matches any word
if the lexeme is invalid. -/
theorem Leads.length_le_of_matches (h : Leads c ds rest k) (hword : Matches k' word)
    (hfront : word <+: c :: (ds ++ rest)) : word.length ≤ (c :: ds).length ∧ k ≠ .invalid := by
  -- the word is made longer, up to a lexeme, and the text starts with one lexeme only
  obtain ⟨more, hmore⟩ := hfront
  obtain ⟨c', ds', rest', k₁, htext, hleads, hle, hk⟩ := (matches_iff.1 hword).leadsFor more
  obtain ⟨rfl, heq⟩ := List.cons.inj (hmore.symm.trans htext)
  obtain ⟨rfl, -, rfl⟩ := h.unique hleads heq
  exact ⟨hle, hk⟩

/-- A lexeme that spells a keyword has its kind. -/
theorem Leads.kind_of_spells {keyword : Keyword} (h : Leads c ds rest k)
    (hspells : Spells (c :: ds) keyword) : k = .keyword keyword := by
  obtain ⟨_, _, hcons, hc, hds⟩ := hspells.exists_cons
  obtain ⟨rfl, rfl⟩ := List.cons.inj hcons
  obtain ⟨es, rest', heq, -, hleads⟩ := exists_leads_word hc hds rest
  obtain ⟨rfl, -, rfl⟩ := h.unique hleads heq
  exact hspells.wordKind_eq

/-- The longest word in front of the text that a rule matches, and its kind. -/
structure LongestMatch (cs : List Char) (k : TokenKind) (word : List Char) : Prop where
  front : word <+: cs
  matched : Matches k word
  longest : ∀ k' word', word' <+: cs → Matches k' word' → word'.length ≤ word.length
  keyword : ∀ keyword, Spells word keyword → k = .keyword keyword
  identifier : k = .identifier → ∀ keyword, ¬Spells word keyword

/-- The invalid lexeme in front of a text that no rule matches: one character, or a quotation mark
with as many items of a string as stand behind it. -/
structure Unmatched (cs : List Char) (k : TokenKind) (word : List Char) : Prop where
  front : word <+: cs
  invalid : k = .invalid
  single : cs.head? ≠ some '\x22' → word.length = 1
  broken : ∀ rest, cs = '\x22' :: rest → ∃ items, word = '\x22' :: items ∧ StringItems items ∧
    ∀ items', items' <+: rest → StringItems items' → items'.length ≤ items.length

theorem Leads.longestMatch (h : Leads c ds rest k) (hk : k ≠ .invalid) :
    LongestMatch (c :: (ds ++ rest)) k (c :: ds) where
  front := List.prefix_append (c :: ds) rest
  matched := matches_iff.2 (h.ruleWord hk)
  longest _ _ hfront hword := (h.length_le_of_matches hword hfront).1
  keyword _ hspells := h.kind_of_spells hspells
  identifier hidentifier keyword hspells := by
    rw [h.kind_of_spells hspells] at hidentifier
    cases hidentifier

theorem StringItems.append {es : List Char} (hds : StringItems ds) (hes : StringItems es) :
    StringItems (ds ++ es) := by
  induction hds with
  | nil => exact hes
  | cons hitem _ ih =>
    rw [List.append_assoc]
    exact .cons hitem ih

/-- No run of items in front of a text is longer than one behind which no item stands. -/
theorem StringItems.length_le {es : List Char} (hes : StringItems es) (hds : StringItems ds)
    (hrest : StopsItem rest) (hfront : es <+: ds ++ rest) : es.length ≤ ds.length := by
  -- both runs are read up to where no item stands, which is one place
  obtain ⟨more, hmore⟩ := hfront
  obtain ⟨fs, rest', rfl, hfs, hrest'⟩ := exists_stringItems more
  have hlength := stringItems_append (hes.append hfs) hrest'
  rw [List.append_assoc, hmore, stringItems_append hds hrest, List.length_append] at hlength
  omega

/-- An invalid lexeme is one character, or a string that is broken off. -/
theorem Leads.cases_of_invalid (h : Leads c ds rest k) (hk : k = .invalid) :
    ds = [] ∧ c ≠ '\x22' ∨ c = '\x22' ∧ StringItems ds ∧ StopsItem rest := by
  cases h with
  | apostrophe => exact Or.inl ⟨rfl, by decide⟩
  | backtick => exact Or.inl ⟨rfl, by decide⟩
  | alone hc =>
    refine Or.inl ⟨rfl, ?_⟩
    rintro rfl
    exact hc.not_opening (by decide)
  | broken hds hrest => exact Or.inr ⟨rfl, hds, hrest⟩
  | word =>
    have hword := wordKind_isWord (c :: ds)
    rw [hk] at hword
    cases hword
  | _ => cases hk

theorem Leads.unmatched (h : Leads c ds rest k) (hk : k = .invalid) :
    Unmatched (c :: (ds ++ rest)) k (c :: ds) := by
  refine ⟨List.prefix_append (c :: ds) rest, hk, ?_, ?_⟩
  · intro hquote
    rcases h.cases_of_invalid hk with ⟨rfl, -⟩ | ⟨rfl, -⟩
    · rfl
    · exact absurd rfl hquote
  · intro rest' hcs
    obtain ⟨rfl, rfl⟩ := List.cons.inj hcs
    rcases h.cases_of_invalid hk with ⟨-, hquote⟩ | ⟨-, hds, hrest⟩
    · exact absurd rfl hquote
    · exact ⟨ds, rfl, hds, fun items hfront hitems => hitems.length_le hds hrest hfront⟩

/-- Rules do not match words as invalid ones. -/
theorem not_matches_invalid : ¬Matches .invalid word := by
  intro h
  generalize hk : TokenKind.invalid = k at h
  cases matches_iff.1 h with
  | mark hmark =>
    subst hk
    simp [marks] at hmark
  | _ => cases hk

end Leads

/-! ### The tokens of a text -/

/-- Only an empty text has no bytes. -/
theorem eq_nil_of_byteLength {cs : List Char} (h : byteLength cs = 0) : cs = [] := by
  cases cs with
  | nil => rfl
  | cons c cs =>
    have hsize := c.utf8Size_pos
    rw [byteLength_cons] at h
    omega

/-- **Every token is the longest match.** If a rule matches a word in front of the text at the
place of a token, the token is the longest such word, and its kind is that of a rule matching it:
that of a keyword, if the word is one in any case of its letters, and that of an identifier only if
it is no keyword. If no rule matches, the token is invalid and covers one character, or a quotation
mark with the items of a string behind it. -/
theorem tokens_longestMatch (source : String) (t : Token) (ht : t ∈ tokens source) :
    ∃ pre cs, source.toList = pre ++ cs ∧ byteLength pre = t.start ∧
      ((∃ k word, word ≠ [] ∧ word <+: cs ∧ Matches k word) → LongestMatch cs t.kind t.chars) ∧
      ((¬∃ k word, word ≠ [] ∧ word <+: cs ∧ Matches k word) → Unmatched cs t.kind t.chars) := by
  obtain ⟨pre, c, ds, rest, hcs, hstart, hchars, hleads⟩ :=
    (lexed_lexemes source.toList).exists_leads ht
  rw [Nat.zero_add] at hstart
  refine ⟨pre, c :: (ds ++ rest), hcs, hstart, ?_, ?_⟩
  · rintro ⟨k, word, -, hfront, hword⟩
    rw [hchars]
    exact hleads.longestMatch (hleads.length_le_of_matches hword hfront).2
  · intro hnone
    rw [hchars]
    refine hleads.unmatched (Decidable.byContradiction fun hk => hnone ?_)
    exact ⟨t.kind, c :: ds, List.cons_ne_nil c ds, List.prefix_append (c :: ds) rest,
      matches_iff.2 (hleads.ruleWord hk)⟩

/-- The letters behind a based literal are no part of it, and a string that ends with an escaped
quotation mark is broken off. -/
theorem tokens_longestMatch_start :
    LongestMatch "8'hEndmodule".toList .basedInteger "8'hE".toList ∧
      Unmatched "\"a\\\"\n\"".toList .invalid "\"a\\\"".toList := by
  constructor
  · obtain ⟨pre, cs, hcs, hstart, hmatch, -⟩ := tokens_longestMatch "8'hEndmodule"
      ⟨⟨.basedInteger, "8'hE".toList⟩, 0⟩ (by decide +kernel)
    obtain rfl := eq_nil_of_byteLength hstart
    rw [hcs]
    refine hmatch ⟨.integer, "8".toList, by decide, ?_, matches_iff.2 (.integer rfl (by simp))⟩
    rw [List.nil_append] at hcs
    rw [← hcs]
    decide
  · obtain ⟨pre, cs, hcs, hstart, hmatch, hnone⟩ := tokens_longestMatch "\"a\\\"\n\""
      ⟨⟨.invalid, "\"a\\\"".toList⟩, 0⟩ (by decide +kernel)
    obtain rfl := eq_nil_of_byteLength hstart
    rw [hcs]
    exact hnone fun hsome => not_matches_invalid (hmatch hsome).matched

end HdlModule
