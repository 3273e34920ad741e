import HdlModule.Proofs.Lexing.Layout
import HdlModule.Proofs.Text.Bytes
import Mathlib.Data.List.Chain

/-!
# Tokens tile their text

The tokens of a text lie side by side from its first byte to its last one, so each byte belongs to
one token. What a token is does not depend on where it stands: the text behind it does no more than
put an end to it. So a token is found again, and no other one with it, in the text that is made of
its characters alone. This holds for invalid tokens too. A string that is broken off stays broken
off, and an apostrophe that opens no literal opens none where nothing follows.

## Main definitions

* `Tiles ts text`: the tokens lie side by side, and put together they are the text

## Main results

* `existsUnique_token`: each byte of a text belongs to one token
* `tokens_text_of_mem`: a token is the only token of its own characters
* `tokens_tile`: the tokens of a text tile it, and each of them stands for itself
-/

namespace HdlModule

/-! ### Tokens by what they lead -/

theorem Token.toList_text (t : Token) : t.text.toList = t.chars :=
  String.toList_ofList

section Mem

variable {text : String} {t : Token}

/-- A token of a text is the lexeme that leads the text at its place. -/
theorem exists_leads_of_mem_tokens (ht : t ∈ tokens text) :
    ∃ pre c ds rest, text.toList = pre ++ c :: (ds ++ rest) ∧ byteLength pre = t.start ∧
      t.chars = c :: ds ∧ Leads c ds rest t.kind := by
  obtain ⟨pre, c, ds, rest, htext, hstart, hchars, hleads⟩ :=
    (lexed_lexemes text.toList).exists_leads ht
  rw [Nat.zero_add] at hstart
  exact ⟨pre, c, ds, rest, htext, hstart, hchars, hleads⟩

/-- At the span of a token stand its characters. -/
theorem covers_of_mem_tokens (ht : t ∈ tokens text) : t.span.Covers text t.chars := by
  obtain ⟨pre, c, ds, rest, htext, hstart, hchars, -⟩ := exists_leads_of_mem_tokens ht
  refine ⟨pre, rest, ?_, ?_⟩
  · rw [htext, hchars, List.cons_append]
  · rw [Token.span, hstart]

/-- A token covers at least one byte. -/
theorem start_lt_stop_of_mem_tokens (ht : t ∈ tokens text) : t.span.start < t.span.stop := by
  obtain ⟨_, c, ds, _, -, -, hchars, -⟩ := exists_leads_of_mem_tokens ht
  have hsize : 0 < c.utf8Size := c.utf8Size_pos
  show t.start < t.start + byteLength t.chars
  rw [hchars, byteLength_cons]
  omega

theorem text_ne_empty_of_mem_tokens (ht : t ∈ tokens text) : t.text ≠ "" := by
  obtain ⟨_, c, ds, _, -, -, hchars, -⟩ := exists_leads_of_mem_tokens ht
  intro hempty
  have hnil := t.toList_text
  rw [hempty, hchars] at hnil
  cases hnil

end Mem

/-! ### Side by side -/

section Locate

variable {offset start : Nat} {ls : List Lexeme} {t : Token}

theorem start_of_mem_head?_locate (ht : t ∈ (locate offset ls).head?) : t.start = offset := by
  cases ls with
  | nil => cases ht
  | cons l ls =>
    cases ht
    rfl

theorem offset_le_of_mem_locate (ht : t ∈ locate offset ls) : offset ≤ t.start := by
  induction ls generalizing offset with
  | nil => cases ht
  | cons l ls ih =>
    rcases List.mem_cons.1 ht with rfl | ht
    · exact Nat.le_refl offset
    · exact Nat.le_trans (Nat.le_add_right offset _) (ih ht)

/-- Each token starts where the one in front of it ends. -/
theorem isChain_locate (offset : Nat) (ls : List Lexeme) :
    (locate offset ls).IsChain fun t u => u.start = t.span.stop := by
  induction ls generalizing offset with
  | nil => exact .nil
  | cons l ls ih =>
    rw [locate_cons]
    refine List.isChain_cons.2 ⟨?_, ih _⟩
    intro u hu
    exact start_of_mem_head?_locate hu

/-- Tokens that follow each other share no byte and leave none out. -/
theorem existsUnique_mem_locate (hstart : start ≤ offset)
    (hstop : offset < start + byteLength (ls.flatMap Lexeme.chars)) :
    ∃! t, t ∈ locate start ls ∧ t.span.start ≤ offset ∧ offset < t.span.stop := by
  induction ls generalizing start with
  | nil => exact absurd hstop (Nat.not_lt.2 hstart)
  | cons l ls ih =>
    rw [List.flatMap_cons, byteLength_append, ← Nat.add_assoc] at hstop
    rw [locate_cons]
    by_cases hfirst : offset < start + byteLength l.chars
    · refine ⟨⟨l, start⟩, ⟨List.mem_cons_self, hstart, hfirst⟩, ?_⟩
      rintro u ⟨hu, hle, -⟩
      rcases List.mem_cons.1 hu with rfl | hu
      · rfl
      · have hbehind := offset_le_of_mem_locate hu
        exact absurd (Nat.le_trans hbehind hle) (Nat.not_le.2 hfirst)
    · obtain ⟨t, ⟨ht, hat⟩, hunique⟩ := ih (Nat.not_lt.1 hfirst) hstop
      refine ⟨t, ⟨List.mem_cons_of_mem _ ht, hat⟩, ?_⟩
      rintro u ⟨hu, hle, hlt⟩
      rcases List.mem_cons.1 hu with rfl | hu
      · exact absurd hlt hfirst
      · exact hunique u ⟨hu, hle, hlt⟩

end Locate

/-- **Each byte of a text belongs to one token.** -/
theorem existsUnique_token {text : String} {offset : Nat} (h : offset < text.utf8ByteSize) :
    ∃! t, t ∈ tokens text ∧ t.span.start ≤ offset ∧ offset < t.span.stop := by
  apply existsUnique_mem_locate (Nat.zero_le offset)
  rwa [flatMap_chars_lexemes, Nat.zero_add, byteLength_toList]

/-- The tokens lie side by side from the start of the text on, none of them is empty, and put
together they are the text. -/
structure Tiles (ts : List Token) (text : String) : Prop where
  ne_empty : ∀ t ∈ ts, t.text ≠ ""
  start_first : ∀ t ∈ ts.head?, t.start = 0
  start_next : ts.IsChain fun t u => u.start = t.span.stop
  join_eq : String.join (ts.map Token.text) = text

/-- The texts of the tokens put together are the text. -/
theorem join_tokens (text : String) : String.join ((tokens text).map Token.text) = text := by
  rw [← String.toList_inj, String.toList_join, List.flatMap_map]
  simp only [Token.toList_text]
  exact flatMap_chars_tokens text

/-- The tokens of a text tile it. -/
theorem tiles_tokens (text : String) : Tiles (tokens text) text where
  ne_empty _ ht := text_ne_empty_of_mem_tokens ht
  start_first _ ht := start_of_mem_head?_locate ht
  start_next := isChain_locate 0 _
  join_eq := join_tokens text

/-! ### Tokens that stand for themselves -/

/-- A lexeme is the only lexeme of its characters. -/
theorem Leads.lexemes_eq {c : Char} {ds rest : List Char} {k : TokenKind}
    (h : Leads c ds rest k) : lexemes (c :: ds) = [⟨k, c :: ds⟩] := by
  -- all of the text behind the lexeme is taken away
  have hrest : Leads c ds ([] ++ rest) k := h
  have hlexemes := lexemes_cons_of_leads hrest.of_append
  rwa [List.append_nil, lexemes_nil] at hlexemes

/-- **A token is the only token of its own characters.** -/
theorem tokens_text_of_mem {text : String} {t : Token} (ht : t ∈ tokens text) :
    tokens t.text = [⟨t.toLexeme, 0⟩] := by
  obtain ⟨_, c, ds, rest, -, -, hchars, hleads⟩ := exists_leads_of_mem_tokens ht
  rw [tokens, t.toList_text, hchars, hleads.lexemes_eq, ← hchars]
  rfl

/-! ### The tokens of a text -/

theorem TokenKind.isTrivia_iff {k : TokenKind} :
    k.isTrivia = true ↔ k = .whitespace ∨ k = .lineComment := by
  cases k <;> simp [isTrivia]

/-- **The tokens of a text tile it, and each of them stands for itself.** No token is empty, the
first one starts at the first byte and each other one where the one in front of it ends, and put
together they are the text; so each byte belongs to one token. The span of a token is the same with
offsets of 32 bits, if the text is short enough to have such offsets. The significant tokens are
those that are neither blanks nor comments, in their places. And a token is the only token of its
own characters, whatever stands behind it in the text. -/
theorem tokens_tile (text : String) (hsize : text.utf8ByteSize < UInt32.size) :
    Tiles (tokens text) text ∧
      (∀ offset < text.utf8ByteSize,
        ∃! t, t ∈ tokens text ∧ t.span.start ≤ offset ∧ offset < t.span.stop) ∧
      (∀ t ∈ tokens text, Span.counted? t.start (byteLength t.chars) = some t.span) ∧
      significantTokens text =
        (tokens text).filter (fun t => t.kind ≠ .whitespace ∧ t.kind ≠ .lineComment) ∧
      ∀ t ∈ tokens text, tokens t.text = [⟨t.toLexeme, 0⟩] := by
  refine ⟨tiles_tokens text, ?_, ?_, ?_, ?_⟩
  · intro offset hoffset
    exact existsUnique_token hoffset
  · intro t ht
    have hstop : t.span.stop ≤ text.utf8ByteSize := (covers_of_mem_tokens ht).fitsIn.stop_le
    apply Span.counted?_eq
    exact Nat.lt_of_le_of_lt hstop hsize
  · apply List.filter_congr
    intro t _
    rw [Bool.eq_iff_iff]
    simp [← Bool.not_eq_true, TokenKind.isTrivia_iff]
  · intro t ht
    exact tokens_text_of_mem ht

/-- A string that is broken off behind a character of two bytes, the backslash that breaks it off, a
character that starts nothing, and an apostrophe that is followed by no base. -/
theorem tokens_tile_invalid :
    let text := "\"é\\\n日8'q//x"
    text.utf8ByteSize < UInt32.size ∧ Tiles (tokens text) text ∧
      (∃! t, t ∈ tokens text ∧ t.span.start ≤ 7 ∧ 7 < t.span.stop) ∧
      ∀ word ∈ ["\"é", "\\", "日", "'"], tokens word = [⟨⟨.invalid, word.toList⟩, 0⟩] := by
  intro text
  have hsize : text.utf8ByteSize < UInt32.size := by decide +kernel
  obtain ⟨htiles, hbyte, -, -, hself⟩ := tokens_tile text hsize
  have halone : ∀ (word : String) (start : Nat), ⟨⟨.invalid, word.toList⟩, start⟩ ∈ tokens text →
      tokens word = [⟨⟨.invalid, word.toList⟩, 0⟩] := by
    intro word start hmem
    have htokens := hself _ hmem
    rwa [Token.text, Lexeme.text, String.ofList_toList] at htokens
  refine ⟨hsize, htiles, hbyte 7 (by decide +kernel), ?_⟩
  simp only [List.forall_mem_cons]
  exact ⟨halone _ 0 (by decide +kernel), halone _ 3 (by decide +kernel),
    halone _ 5 (by decide +kernel), halone _ 9 (by decide +kernel), List.forall_mem_nil _⟩

end HdlModule
