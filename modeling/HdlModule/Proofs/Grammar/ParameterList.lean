import HdlModule.Interface.ParameterList
import HdlModule.Proofs.Grammar.Header

/-!
# The grammar of parameter lists

Each part of a parameter list has a relation that says which lexemes it may consist of and what
they mean. The relations do not look at what stands behind a part and know no order of reading.
Where a part ends is a matter of the next token, so a reader is shown complete under a condition
on that token and sound without one.

The offsets of tokens do not matter to the grammar: it speaks of lexemes.

## Main definitions

* `ParameterStyle inherited ls type?`: the words in front of a name, and the type they stand for
* `ParameterValue`, `ParameterDeclaration`, `ParameterDeclarations`: the other parts
* `ParameterSection ls ps`: a parameter list, which may be missing

## Main results

* `exists_parameterSection`: what `readParameterList` reads is a parameter list
* `readParameterList_append`: a parameter list is read, whatever stands behind it
-/

namespace HdlModule

/-! ### The grammar -/

/-- A range, which may be missing. Any lexeme but a closing bracket may stand in it. -/
inductive BracketRange : List Lexeme → List String → Prop
  | absent : BracketRange [] []
  | present {opener closer : Lexeme} {ls : List Lexeme} (hopener : opener.kind = .leftBracket)
      (hls : ∀ l ∈ ls, l.kind ≠ .rightBracket) (hcloser : closer.kind = .rightBracket) :
      BracketRange (opener :: (ls ++ [closer]))
        [String.join ((opener :: (ls ++ [closer])).map Lexeme.text)]

/-- The type that has the given parts. -/
def typeOfParts (parts : List String) : Option String :=
  if parts = [] then none else some (" ".intercalate parts)

/-- What stands in front of the name of a parameter: nothing, or `parameter` with the parts of a
type. Where nothing stands the type is that of the declaration before. -/
inductive ParameterStyle (inherited : Option String) : List Lexeme → Option String → Prop
  | inherits : ParameterStyle inherited [] inherited
  | declares {keyword : Lexeme} {types signs range : List Lexeme}
      {typeText signText rangeText : List String} (hkeyword : keyword.kind = .keyword .parameter)
      (htypes : OptionalKeyword TokenKind.isParameterType types typeText)
      (hsigns : OptionalKeyword TokenKind.isSign signs signText)
      (hrange : BracketRange range rangeText) :
      ParameterStyle inherited (keyword :: (types ++ (signs ++ range)))
        (typeOfParts (typeText ++ signText ++ rangeText))

/-- The value of a parameter: an integer literal, which may have a sign in front. -/
inductive ParameterValue : List Lexeme → Int64 → Prop
  | plain {l : Lexeme} {n : Nat} (hl : IntegerLiteral l n) : ParameterValue [l] (Int64.ofNat n)
  | plus {s l : Lexeme} {n : Nat} (hs : s.kind = .plus) (hl : IntegerLiteral l n) :
      ParameterValue [s, l] (Int64.ofNat n)
  | minus {s l : Lexeme} {n : Nat} (hs : s.kind = .minus) (hl : IntegerLiteral l n) :
      ParameterValue [s, l] (-Int64.ofNat n)

/-- The declaration of one parameter. -/
inductive ParameterDeclaration (inherited : Option String) : List Lexeme → Parameter → Prop
  | mk {style value : List Lexeme} {name equals : Lexeme} {type? : Option String}
      {default : Int64} (hstyle : ParameterStyle inherited style type?)
      (hname : name.kind = .identifier) (hequals : equals.kind = .equals)
      (hvalue : ParameterValue value default) :
      ParameterDeclaration inherited (style ++ name :: equals :: value)
        ⟨name.text, type?, default⟩

/-- Declarations with commas between them. Each one passes its type on to the next. -/
inductive ParameterDeclarations : Option String → List Lexeme → List Parameter → Prop
  | last {inherited : Option String} {ls : List Lexeme} {p : Parameter}
      (hp : ParameterDeclaration inherited ls p) : ParameterDeclarations inherited ls [p]
  | cons {inherited : Option String} {ls ls' : List Lexeme} {separator : Lexeme} {p : Parameter}
      {ps : List Parameter} (hp : ParameterDeclaration inherited ls p)
      (hseparator : separator.kind = .comma) (hps : ParameterDeclarations p.type? ls' ps) :
      ParameterDeclarations inherited (ls ++ separator :: ls') (p :: ps)

/-- The parameter list of a module: missing, empty, or with declarations. -/
inductive ParameterSection : List Lexeme → List Parameter → Prop
  | absent : ParameterSection [] []
  | empty {hash opener closer : Lexeme} (hhash : hash.kind = .hash)
      (hopener : opener.kind = .leftParen) (hcloser : closer.kind = .rightParen) :
      ParameterSection [hash, opener, closer] []
  | list {hash opener closer : Lexeme} {ls : List Lexeme} {ps : List Parameter}
      (hhash : hash.kind = .hash) (hopener : opener.kind = .leftParen)
      (hps : ParameterDeclarations none ls ps) (hcloser : closer.kind = .rightParen) :
      ParameterSection (hash :: opener :: (ls ++ [closer])) ps

/-! ### Keywords and ranges -/

theorem map_text_map_toLexeme (ts : List Token) :
    (ts.map Token.toLexeme).map Lexeme.text = ts.map Token.text := by
  rw [List.map_map]
  rfl

section Parts

variable {p q : TokenKind → Bool} {ls : List Lexeme} {parts : List String}
  {used rest ts : List Token}

theorem exists_optionalKeyword (p : TokenKind → Bool) (ts : List Token) :
    ∃ used, ts = used ++ (takeKeyword p ts).2 ∧
      OptionalKeyword p (used.map Token.toLexeme) (takeKeyword p ts).1 := by
  unfold takeKeyword
  split
  · next t rest =>
    split
    · next ht => exact ⟨[t], rfl, .present ht⟩
    · exact ⟨[], rfl, .absent⟩
  · exact ⟨[], rfl, .absent⟩

theorem takeKeyword_append (h : OptionalKeyword p ls parts) (hls : used.map Token.toLexeme = ls)
    (hrest : NextNot p rest) : takeKeyword p (used ++ rest) = (parts, rest) := by
  cases h with
  | absent =>
    obtain rfl := List.map_eq_nil_iff.1 hls
    cases rest with
    | nil => rfl
    | cons t rest => simp [takeKeyword, nextNot_cons.1 hrest]
  | present hl =>
    obtain ⟨t, rfl, rfl⟩ := List.map_eq_singleton_iff.1 hls
    simp only [takeKeyword, List.singleton_append, hl, if_true]
    rfl

theorem throughBracket_append {closer : Token} (hused : ∀ t ∈ used, t.kind ≠ .rightBracket)
    (hcloser : closer.kind = .rightBracket) :
    throughBracket (used ++ closer :: rest) = (used ++ [closer], rest) := by
  induction used with
  | nil => simp [throughBracket, hcloser]
  | cons t used ih =>
    have ht : t.kind ≠ .rightBracket := hused t List.mem_cons_self
    have htail := ih fun s hs => hused s (List.mem_cons_of_mem t hs)
    simp only [List.cons_append, throughBracket, ht, if_false, htail]

/-- What is read as a range is closed, or it is the rest of the text. -/
theorem exists_throughBracket (ts : List Token) :
    (∃ used closer, (throughBracket ts).1 = used ++ [closer] ∧
      ts = used ++ closer :: (throughBracket ts).2 ∧
      (∀ t ∈ used, t.kind ≠ .rightBracket) ∧ closer.kind = .rightBracket) ∨
    (throughBracket ts).2 = [] := by
  induction ts with
  | nil => exact Or.inr rfl
  | cons t ts ih =>
    by_cases ht : t.kind = .rightBracket
    · exact Or.inl ⟨[], t, by simp [throughBracket, ht], by simp [throughBracket, ht],
        by simp, ht⟩
    · simp only [throughBracket, ht, if_false]
      rcases ih with ⟨used, closer, hrange, hts, hused, hcloser⟩ | hnone
      · refine Or.inl ⟨t :: used, closer, by rw [hrange, List.cons_append], ?_, ?_, hcloser⟩
        · rw [List.cons_append, ← hts]
        · exact List.forall_mem_cons.2 ⟨ht, hused⟩
      · exact Or.inr hnone

/-- A range is read, or nothing is left behind what is read. -/
theorem exists_bracketRange (ts : List Token) :
    (∃ used, ts = used ++ (takeRange ts).2 ∧
      BracketRange (used.map Token.toLexeme) (takeRange ts).1) ∨ (takeRange ts).2 = [] := by
  unfold takeRange
  split
  · next t rest =>
    split
    · next ht =>
      rcases exists_throughBracket rest with ⟨used, closer, hrange, hts, hused, hcloser⟩ | hnone
      · refine Or.inl ⟨t :: (used ++ [closer]), ?_, ?_⟩
        · rw [List.cons_append, List.append_assoc, List.singleton_append, ← hts]
        · have hclass : ∀ l ∈ used.map Token.toLexeme, l.kind ≠ .rightBracket := by
            intro l hl
            obtain ⟨s, hs, rfl⟩ := List.mem_map.1 hl
            exact hused s hs
          have h := BracketRange.present ht hclass hcloser
          have hmap : t.toLexeme :: (used.map Token.toLexeme ++ [closer.toLexeme]) =
              (t :: (used ++ [closer])).map Token.toLexeme := by simp
          rw [hmap, map_text_map_toLexeme] at h
          show BracketRange _ [String.join ((t :: (throughBracket rest).1).map Token.text)]
          rwa [hrange]
      · exact Or.inr hnone
    · exact Or.inl ⟨[], rfl, .absent⟩
  · exact Or.inl ⟨[], rfl, .absent⟩

theorem takeRange_append (h : BracketRange ls parts) (hls : used.map Token.toLexeme = ls)
    (hrest : NextNot (· = .leftBracket) rest) : takeRange (used ++ rest) = (parts, rest) := by
  cases h with
  | absent =>
    obtain rfl := List.map_eq_nil_iff.1 hls
    cases rest with
    | nil => rfl
    | cons t rest =>
      have ht := nextNot_cons.1 hrest
      simp only [decide_eq_false_iff_not] at ht
      simp [takeRange, ht]
  | @present opener closer ls hopener hls' hcloser =>
    obtain ⟨t, tail, rfl, rfl, htail⟩ := List.map_eq_cons_iff.1 hls
    obtain ⟨inner, last, rfl, hinner, hlast⟩ := List.map_eq_append_iff.1 htail
    obtain ⟨s, rfl, rfl⟩ := List.map_eq_singleton_iff.1 hlast
    have hclass : ∀ t ∈ inner, t.kind ≠ .rightBracket := fun t ht =>
      hls' t.toLexeme (hinner ▸ List.mem_map_of_mem ht)
    rw [List.cons_append, List.append_assoc, List.singleton_append, takeRange, if_pos hopener,
      throughBracket_append hclass hcloser, ← hls, map_text_map_toLexeme]

theorem BracketRange.nextNot (h : BracketRange ls parts) (hls : used.map Token.toLexeme = ls)
    (hq : q .leftBracket = false) : NextNot q used := by
  cases h with
  | absent =>
    obtain rfl := List.map_eq_nil_iff.1 hls
    exact nextNot_nil
  | present hopener =>
    obtain ⟨t, tail, rfl, rfl, -⟩ := List.map_eq_cons_iff.1 hls
    exact nextNot_cons.2 (by rw [hopener, hq])

end Parts

/-! ### Declarations -/

section Declarations

variable {inherited type? : Option String} {ls : List Lexeme} {p : Parameter}
  {ps : List Parameter} {used rest ts : List Token}

theorem isParameterType_of_isSign {k : TokenKind} (hk : k.isSign = true) :
    k.isParameterType = false := by
  obtain ⟨sign, rfl⟩ := exists_sign_of_isSign hk
  rfl

/-- The type in front of a name is read, or nothing is left behind what is read. -/
theorem exists_parameterStyle (inherited : Option String) (ts : List Token) :
    (∃ used, ts = used ++ (nextType inherited ts).2 ∧
      ParameterStyle inherited (used.map Token.toLexeme) (nextType inherited ts).1) ∨
    (nextType inherited ts).2 = [] := by
  unfold nextType
  split
  · next t rest =>
    split
    · next ht =>
      obtain ⟨types, htypes, htypes'⟩ := exists_optionalKeyword TokenKind.isParameterType rest
      obtain ⟨signs, hsigns, hsigns'⟩ := exists_optionalKeyword TokenKind.isSign
        (takeKeyword TokenKind.isParameterType rest).2
      rcases exists_bracketRange (takeKeyword TokenKind.isSign
        (takeKeyword TokenKind.isParameterType rest).2).2 with ⟨range, hrange, hrange'⟩ | hnone
      · refine Or.inl ⟨t :: (types ++ (signs ++ range)), ?_, ?_⟩
        · rw [List.cons_append, List.append_assoc, List.append_assoc]
          show t :: rest = t :: (types ++ (signs ++ (range ++ (takeRange _).2)))
          rw [← hrange, ← hsigns, ← htypes]
        · rw [List.map_cons, List.map_append, List.map_append]
          exact .declares ht htypes' hsigns' hrange'
      · exact Or.inr hnone
    · exact Or.inl ⟨[], rfl, .inherits⟩
  · exact Or.inl ⟨[], rfl, .inherits⟩

/-- The type in front of a name is read in full. -/
theorem nextType_append {name : Token} (h : ParameterStyle inherited ls type?)
    (hls : used.map Token.toLexeme = ls) (hname : name.kind = .identifier) :
    nextType inherited (used ++ name :: rest) = (type?, name :: rest) := by
  cases h with
  | inherits =>
    obtain rfl := List.map_eq_nil_iff.1 hls
    simp [nextType, hname]
  | declares hkeyword htypes hsigns hrange =>
    obtain ⟨t, tail, rfl, rfl, htail⟩ := List.map_eq_cons_iff.1 hls
    obtain ⟨types', tail', rfl, htypes', htail'⟩ := List.map_eq_append_iff.1 htail
    obtain ⟨signs', range', rfl, hsigns', hrange'⟩ := List.map_eq_append_iff.1 htail'
    -- each optional part is followed by a later part or by the name
    have hrest : ∀ q : TokenKind → Bool, q .identifier = false → NextNot q (name :: rest) :=
      fun q hq => nextNot_cons.2 (by rw [hname, hq])
    have hbehindSigns : NextNot TokenKind.isSign (range' ++ name :: rest) :=
      (hrange.nextNot hrange' rfl).append (hrest _ rfl)
    have hbehindTypes : NextNot TokenKind.isParameterType (signs' ++ (range' ++ name :: rest)) :=
      (hsigns.nextNot hsigns' fun _ => isParameterType_of_isSign).append
        ((hrange.nextNot hrange' rfl).append (hrest _ rfl))
    rw [List.cons_append, List.append_assoc, List.append_assoc, nextType, if_pos hkeyword,
      declaredType, takeKeyword_append htypes htypes' hbehindTypes,
      takeKeyword_append hsigns hsigns' hbehindSigns,
      takeRange_append hrange hrange' (hrest _ rfl)]
    rfl

/-- A literal is read in front of a comma, a closing parenthesis or the end of the text. -/
theorem readLiteral_eq_ok_iff {parameter : String} {sign? : Option Token} {value : Int64} :
    readLiteral parameter sign? ts = .ok (value, rest) ↔
      ∃ literal n, ts = literal :: rest ∧ IntegerLiteral literal.toLexeme n ∧
        value = signedValue sign? n ∧
        ∀ next ∈ rest.head?, next.kind = .comma ∨ next.kind = .rightParen := by
  constructor
  · intro h
    unfold readLiteral at h
    split at h
    · cases h
    · next literal tail =>
      split at h
      · next hkind =>
        split at h
        · cases h
        · next n hn =>
          split at h
          · cases h
            exact ⟨literal, n, rfl, ⟨hkind, hn⟩, rfl, by simp⟩
          · split at h
            · next hnext =>
              cases h
              exact ⟨literal, n, rfl, ⟨hkind, hn⟩, rfl, by simpa using hnext⟩
            · cases h
      · cases h
  · rintro ⟨literal, n, rfl, ⟨hkind, hn⟩, rfl, hnext⟩
    simp only [readLiteral, hkind, if_true, hn]
    cases rest with
    | nil => rfl
    | cons next rest => simp only [hnext next rfl, if_true]

/-- What follows the equals sign of a declaration that is read is a value. -/
theorem exists_parameterValue {parameter : String} {value : Int64}
    (h : readValue parameter ts = .ok (value, rest)) :
    ∃ used, ts = used ++ rest ∧ ParameterValue (used.map Token.toLexeme) value := by
  obtain ⟨literal, n, hts, hliteral, rfl, -⟩ := readLiteral_eq_ok_iff.1 h
  unfold takeSign at hts ⊢
  split at hts
  · next t tail =>
    split at hts
    · next hsign =>
      obtain rfl : tail = literal :: rest := hts
      refine ⟨[t, literal], rfl, ?_⟩
      rw [if_pos hsign]
      rcases hsign with hplus | hminus
      · simpa [signedValue, hplus] using ParameterValue.plus hplus hliteral
      · simpa [signedValue, hminus] using ParameterValue.minus hminus hliteral
    · next hsign =>
      obtain ⟨rfl, rfl⟩ := List.cons.inj hts
      rw [if_neg hsign]
      exact ⟨[t], rfl, .plain hliteral⟩
  · cases hts

/-- A value is read in front of a comma or a closing parenthesis. -/
theorem readValue_append {parameter : String} {value : Int64} {next : Token}
    (h : ParameterValue ls value) (hls : used.map Token.toLexeme = ls)
    (hnext : next.kind = .comma ∨ next.kind = .rightParen) :
    readValue parameter (used ++ next :: rest) = .ok (value, next :: rest) := by
  have hbehind : ∀ t ∈ (next :: rest).head?, t.kind = .comma ∨ t.kind = .rightParen := by
    simpa using hnext
  cases h with
  | plain hl =>
    obtain ⟨t, rfl, rfl⟩ := List.map_eq_singleton_iff.1 hls
    have hsign : ¬ (t.kind = .plus ∨ t.kind = .minus) := by
      rintro (hplus | hminus)
      · exact absurd (hplus ▸ hl.1) (by decide)
      · exact absurd (hminus ▸ hl.1) (by decide)
    rw [readValue, List.singleton_append, takeSign, if_neg hsign]
    exact readLiteral_eq_ok_iff.2 ⟨t, _, rfl, hl, rfl, hbehind⟩
  | plus hs hl =>
    obtain ⟨s, tail, rfl, rfl, htail⟩ := List.map_eq_cons_iff.1 hls
    obtain ⟨t, rfl, rfl⟩ := List.map_eq_singleton_iff.1 htail
    rw [readValue, List.cons_append, takeSign, if_pos (Or.inl hs)]
    exact readLiteral_eq_ok_iff.2 ⟨t, _, rfl, hl, by simp [signedValue, hs], hbehind⟩
  | minus hs hl =>
    obtain ⟨s, tail, rfl, rfl, htail⟩ := List.map_eq_cons_iff.1 hls
    obtain ⟨t, rfl, rfl⟩ := List.map_eq_singleton_iff.1 htail
    rw [readValue, List.cons_append, takeSign, if_pos (Or.inr hs)]
    exact readLiteral_eq_ok_iff.2 ⟨t, _, rfl, hl, by simp [signedValue, hs], hbehind⟩

theorem exists_parameterDeclaration (h : readParameter inherited ts = .ok (p, rest)) :
    ∃ used, ts = used ++ rest ∧
      ParameterDeclaration inherited (used.map Token.toLexeme) p := by
  simp only [readParameter, bind_eq_ok] at h
  obtain ⟨⟨name, ts₁⟩, hname, ⟨equals, ts₂⟩, hequals, ⟨value, ts₃⟩, hvalue, hp⟩ := h
  obtain ⟨hts₁, hnameKind⟩ := takeToken_eq_ok.1 hname
  obtain ⟨hts₂, hequalsKind⟩ := takeToken_eq_ok.1 hequals
  obtain ⟨valueUsed, hts₃, hvalue⟩ := exists_parameterValue hvalue
  rcases exists_parameterStyle inherited ts with ⟨style, hts, hstyle⟩ | hnone
  · cases hp
    refine ⟨style ++ name :: equals :: valueUsed, ?_, ?_⟩
    · simp only at hts₁ hts₂ hts₃ ⊢
      rw [hts, hts₁, hts₂, hts₃, List.append_assoc, List.cons_append, List.cons_append]
    · rw [List.map_append, List.map_cons, List.map_cons]
      exact .mk hstyle hnameKind hequalsKind hvalue
  · rw [hnone] at hts₁
    cases hts₁

theorem readParameter_append {next : Token} (h : ParameterDeclaration inherited ls p)
    (hls : used.map Token.toLexeme = ls)
    (hnext : next.kind = .comma ∨ next.kind = .rightParen) :
    readParameter inherited (used ++ next :: rest) = .ok (p, next :: rest) := by
  obtain ⟨hstyle, hname, hequals, hvalue⟩ := h
  obtain ⟨style, tail, rfl, hstyleUsed, htail⟩ := List.map_eq_append_iff.1 hls
  obtain ⟨name, tail', rfl, rfl, htail'⟩ := List.map_eq_cons_iff.1 htail
  obtain ⟨equals, value, rfl, rfl, hvalueUsed⟩ := List.map_eq_cons_iff.1 htail'
  rw [List.append_assoc, List.cons_append, List.cons_append]
  simp only [readParameter, bind_eq_ok]
  rw [nextType_append hstyle hstyleUsed hname]
  exact ⟨(name, _), takeToken_eq_ok.2 ⟨rfl, hname⟩, (equals, _), takeToken_eq_ok.2 ⟨rfl, hequals⟩,
    (_, _), readValue_append hvalue hvalueUsed hnext, rfl⟩

/-! ### The list -/

theorem exists_parameterDeclarations {opener : Token}
    (h : readParameters opener inherited ts = .ok (ps, rest)) :
    ∃ used closer, ts = used ++ closer :: rest ∧ closer.kind = .rightParen ∧
      ParameterDeclarations inherited (used.map Token.toLexeme) ps := by
  fun_induction readParameters opener inherited ts generalizing ps rest with
  | case1 => cases h
  | case2 => cases h
  | case3 inherited ts p t tail hread hcomma ih =>
    simp only [bind_eq_ok] at h
    obtain ⟨⟨more, rest'⟩, hmore, hps⟩ := h
    cases hps
    obtain ⟨used, rfl, hp⟩ := exists_parameterDeclaration hread
    obtain ⟨used', closer, rfl, hcloser, hps⟩ := ih hmore
    refine ⟨used ++ t :: used', closer, ?_, hcloser, ?_⟩
    · rw [List.append_assoc, List.cons_append]
    · rw [List.map_append, List.map_cons]
      exact .cons hp hcomma hps
  | case4 inherited ts p t tail hread _ hcloser =>
    cases h
    obtain ⟨used, rfl, hp⟩ := exists_parameterDeclaration hread
    exact ⟨used, t, rfl, hcloser, .last hp⟩
  | case5 => cases h

theorem readParameters_append {opener closer : Token}
    (h : ParameterDeclarations inherited ls ps) (hls : used.map Token.toLexeme = ls)
    (hcloser : closer.kind = .rightParen) :
    readParameters opener inherited (used ++ closer :: rest) = .ok (ps, rest) := by
  induction h generalizing used with
  | last hp =>
    rw [readParameters, readParameter_append hp hls (Or.inr hcloser)]
    simp [hcloser]
  | cons hp hseparator hps ih =>
    obtain ⟨used', tail, rfl, hused', htail⟩ := List.map_eq_append_iff.1 hls
    obtain ⟨t, used'', rfl, rfl, hused''⟩ := List.map_eq_cons_iff.1 htail
    rw [List.append_assoc, List.cons_append, readParameters,
      readParameter_append hp hused' (Or.inl hseparator)]
    simp only [hseparator, if_true, ih hused'']
    rfl

/-- Declarations do not start with the parenthesis that closes an empty list. -/
theorem ParameterDeclarations.exists_cons (h : ParameterDeclarations inherited ls ps) :
    ∃ l ls', ls = l :: ls' ∧ l.kind ≠ .rightParen := by
  have hfirst : ∀ {inherited ls p}, ParameterDeclaration inherited ls p →
      ∃ l ls', ls = l :: ls' ∧ l.kind ≠ .rightParen := by
    rintro inherited _ _ ⟨hstyle, hname, -, -⟩
    cases hstyle with
    | inherits => exact ⟨_, _, rfl, by simp [hname]⟩
    | declares hkeyword => exact ⟨_, _, rfl, by simp [hkeyword]⟩
  cases h with
  | last hp => exact hfirst hp
  | cons hp =>
    obtain ⟨l, ls', rfl, hl⟩ := hfirst hp
    exact ⟨l, _, rfl, hl⟩

theorem parameterSection_of_readParameters {hash opener : Token} (hhash : hash.kind = .hash)
    (hopener : opener.kind = .leftParen) (h : readParameters opener none ts = .ok (ps, rest)) :
    ∃ used, hash :: opener :: ts = used ++ rest ∧
      ParameterSection (used.map Token.toLexeme) ps := by
  obtain ⟨used, closer, rfl, hcloser, hps⟩ := exists_parameterDeclarations h
  refine ⟨hash :: opener :: (used ++ [closer]), by simp, ?_⟩
  simp only [List.map_cons, List.map_append, List.map_nil]
  exact .list hhash hopener hps hcloser

/-- **What is read as a parameter list is one.** -/
theorem exists_parameterSection (h : readParameterList ts = .ok (ps, rest)) :
    ∃ used, ts = used ++ rest ∧ ParameterSection (used.map Token.toLexeme) ps := by
  unfold readParameterList at h
  split at h
  · cases h
    exact ⟨[], rfl, .absent⟩
  · next hash tail =>
    split at h
    · next hhash =>
      simp only [bind_eq_ok] at h
      obtain ⟨⟨opener, tail'⟩, htake, h⟩ := h
      obtain ⟨rfl, hopener⟩ := takeToken_eq_ok.1 htake
      cases tail' with
      | nil => exact parameterSection_of_readParameters hhash hopener h
      | cons closer tail'' =>
        simp only at h
        split at h
        · next hcloser =>
          cases h
          exact ⟨[hash, opener, closer], rfl, .empty hhash hopener hcloser⟩
        · exact parameterSection_of_readParameters hhash hopener h
    · cases h
      exact ⟨[], rfl, .absent⟩

/-- **A parameter list is read**, whatever stands behind it. A list that is missing has no `#`
behind it. -/
theorem readParameterList_append (h : ParameterSection ls ps)
    (hls : used.map Token.toLexeme = ls) (hrest : NextNot (· = .hash) rest) :
    readParameterList (used ++ rest) = .ok (ps, rest) := by
  cases h with
  | absent =>
    obtain rfl := List.map_eq_nil_iff.1 hls
    cases rest with
    | nil => rfl
    | cons t rest =>
      have ht := nextNot_cons.1 hrest
      simp only [decide_eq_false_iff_not] at ht
      simp [readParameterList, ht]
  | empty hhash hopener hcloser =>
    obtain ⟨hash, tail, rfl, rfl, htail⟩ := List.map_eq_cons_iff.1 hls
    obtain ⟨opener, tail', rfl, rfl, htail'⟩ := List.map_eq_cons_iff.1 htail
    obtain ⟨closer, rfl, rfl⟩ := List.map_eq_singleton_iff.1 htail'
    simp only [List.cons_append, List.nil_append, readParameterList, hhash, if_true, bind_eq_ok]
    refine ⟨(opener, closer :: rest), takeToken_eq_ok.2 ⟨rfl, hopener⟩, ?_⟩
    simp only [hcloser, if_true]
    rfl
  | list hhash hopener hps hcloser =>
    obtain ⟨hash, tail, rfl, rfl, htail⟩ := List.map_eq_cons_iff.1 hls
    obtain ⟨opener, tail', rfl, rfl, htail'⟩ := List.map_eq_cons_iff.1 htail
    obtain ⟨used', last, rfl, hused', hlast⟩ := List.map_eq_append_iff.1 htail'
    obtain ⟨closer, rfl, rfl⟩ := List.map_eq_singleton_iff.1 hlast
    have hread : readParameters opener none (used' ++ closer :: rest) = .ok (ps, rest) :=
      readParameters_append hps hused' hcloser
    obtain ⟨l, ls', hcons, hl⟩ := hps.exists_cons
    obtain ⟨t, used'', rfl, rfl, -⟩ := List.map_eq_cons_iff.1 (hused'.trans hcons)
    simp only [List.cons_append, List.append_assoc, List.nil_append, readParameterList, hhash,
      if_true, bind_eq_ok]
    refine ⟨(opener, _), takeToken_eq_ok.2 ⟨rfl, hopener⟩, ?_⟩
    simp only [hl, if_false]
    exact hread

end Declarations

end HdlModule
