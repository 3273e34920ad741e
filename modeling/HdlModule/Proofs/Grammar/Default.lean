import HdlModule.Proofs.Grammar.Module
import HdlModule.Proofs.Grammar.Places
import HdlModule.Proofs.LegalName
import HdlModule.Proofs.Lexing.Written

/-!
# Default values that are written and read back

A default value is written in decimal, with a minus in front where it is negative. The minus is a
token of its own, and the literal behind it is decoded on its own, as a number without a sign. So
a value is read back if its magnitude is the value of a literal. The magnitude of the least value
of 64 bits is not: this one value can be a default, but no text in decimal gives it.

## Main definitions

* `defaultText name value`: the text of a module with one parameter and its default value
* `valueLexemes value`: the lexemes of a value in decimal

## Main results

* `ofText_defaultText_of_lt`, `ofText_defaultText_of_le`: what is read for any integer
* `ofText_defaultText`: each value of 64 bits but the least one is read back
-/

namespace HdlModule

/-- The text of a module with one parameter that has a default value. -/
def defaultText (name : String) (value : Int) : String :=
  "module M #(parameter " ++ name ++ " = " ++ toString value ++ ") (); endmodule"

/-! ### Values in decimal -/

/-- The lexemes of a value: a minus where it is negative, and the digits. -/
def valueLexemes (value : Int) : List Lexeme :=
  (if value < 0 then [⟨.minus, ['-']⟩] else []) ++ [⟨.integer, Nat.toDigits 10 value.natAbs⟩]

section Values

variable {value : Int} {rest : List Char}

/-- A value in decimal does not start with a blank. -/
theorem stops_isSpace_toString (value : Int) : Stops isSpace ((toString value).toList ++ rest) := by
  rw [toList_toString]
  split
  · exact stops_cons.2 rfl
  · obtain ⟨c, ds, hcons, hc, -⟩ := exists_toDigits_eq_cons value.natAbs
    rw [hcons]
    exact stops_cons.2 (isSpace_of_isDigit hc)

/-- A value in decimal is its lexemes, where neither a digit nor an apostrophe follows. -/
theorem lexemes_toString_append (value : Int) (hrest : Stops isDecimalPart rest)
    (hquote : ∀ c ∈ rest.head?, c ≠ '\x27') :
    lexemes ((toString value).toList ++ rest) = valueLexemes value ++ lexemes rest := by
  have hdigits := lexemes_toDigits_append value.natAbs hrest hquote
  rw [toList_toString, valueLexemes]
  split
  · rw [List.append_assoc, List.singleton_append, lexemes_punctuation_cons (by decide), hdigits]
    rfl
  · exact hdigits

/-- A value in decimal is read as a default value if the number without the sign is decoded. -/
theorem parameterValue_valueLexemes (hvalue : value.natAbs < 2 ^ 63) :
    ParameterValue (valueLexemes value) (Int64.ofInt value) := by
  have hliteral : IntegerLiteral ⟨.integer, Nat.toDigits 10 value.natAbs⟩ value.natAbs :=
    ⟨rfl, literalValue_toDigits hvalue⟩
  have hminus : (⟨.minus, ['-']⟩ : Lexeme).kind = .minus := rfl
  unfold valueLexemes
  split
  · next hneg =>
    have hsigned : Int64.ofInt value = -Int64.ofNat value.natAbs := by
      rw [← Int64.ofInt_eq_ofNat, ← Int64.ofInt_neg]
      exact congrArg Int64.ofInt (by omega)
    rw [hsigned]
    exact .minus hminus hliteral
  · next hpos =>
    have hplain : Int64.ofInt value = Int64.ofNat value.natAbs := by
      rw [← Int64.ofInt_eq_ofNat]
      exact congrArg Int64.ofInt (by omega)
    rw [hplain]
    exact .plain hliteral

/-- The token of the digits of a value whose lexemes start at an offset. -/
def digitsToken (offset : Nat) (value : Int) : Token :=
  ⟨⟨.integer, Nat.toDigits 10 value.natAbs⟩, if value < 0 then offset + 1 else offset⟩

/-- A value in decimal is refused if the number without the sign is too large for a literal,
whatever the sign. -/
theorem readValue_of_le (hvalue : 2 ^ 63 ≤ value.natAbs) (name : String) (offset : Nat)
    (ts : List Token) :
    readValue name (locate offset (valueLexemes value) ++ ts) =
      .error (.parameterLiteral name (digitsToken offset value) .overflow) := by
  have hoverflow : literalValue (Nat.toDigits 10 value.natAbs) = .error .overflow :=
    (literalValue_toDigits_eq _).trans (if_neg (Nat.not_lt.2 hvalue))
  unfold valueLexemes digitsToken
  split
  · simp only [locate_cons, locate_nil, List.cons_append, List.nil_append, readValue,
      takeSign, or_true, if_true, readLiteral, TokenKind.isInteger, hoverflow]
    rfl
  · simp only [List.nil_append, locate_cons, locate_nil, List.cons_append,
      readValue, takeSign, reduceCtorEq, or_self, if_false, readLiteral, TokenKind.isInteger,
      if_true, hoverflow]

end Values

/-! ### One parameter -/

section Parameters

variable {hash opener keyword name equals closer : Token} {ts rest : List Token}

/-- A declaration without a type is its name and its value. -/
theorem readParameter_untyped (hkeyword : keyword.kind = .keyword .parameter)
    (hname : name.kind = .identifier) (hequals : equals.kind = .equals) :
    readParameter none (keyword :: name :: equals :: ts) =
      (readValue name.text ts >>= fun r => .ok (⟨name.text, none, r.1⟩, r.2)) := by
  have htype : nextType none (keyword :: name :: equals :: ts) = (none, name :: equals :: ts) := by
    simp [nextType, hkeyword, declaredType, takeKeyword, takeRange, hname,
      TokenKind.isParameterType, TokenKind.isSign]
  have htake : takeToken .identifier .parameterName (name :: equals :: ts) =
      .ok (name, equals :: ts) := takeToken_eq_ok.2 ⟨rfl, hname⟩
  have htake' : takeToken .equals (.parameterEquals name.text) (equals :: ts) =
      .ok (equals, ts) := takeToken_eq_ok.2 ⟨rfl, hequals⟩
  rw [readParameter, htype, htake]
  show takeToken .equals (.parameterEquals name.text) (equals :: ts) >>= _ = _
  rw [htake']
  rfl

/-- A parameter list with a declaration is read from its first declaration on. -/
theorem readParameterList_of_keyword (hhash : hash.kind = .hash)
    (hopener : opener.kind = .leftParen) (hkeyword : keyword.kind = .keyword .parameter) :
    readParameterList (hash :: opener :: keyword :: ts) =
      readParameters opener none (keyword :: ts) := by
  have htake : takeToken .leftParen .parameterList (opener :: keyword :: ts) =
      .ok (opener, keyword :: ts) := takeToken_eq_ok.2 ⟨rfl, hopener⟩
  rw [readParameterList]
  simp only [hhash, if_true, htake]
  show (if keyword.kind = .rightParen then _ else _) = _
  rw [if_neg (by simp [hkeyword])]

/-- A parameter list with one untyped declaration is read as the value in it. -/
theorem readParameterList_of_value (hhash : hash.kind = .hash)
    (hopener : opener.kind = .leftParen) (hkeyword : keyword.kind = .keyword .parameter)
    (hname : name.kind = .identifier) (hequals : equals.kind = .equals)
    (hcloser : closer.kind = .rightParen) {value : Int64}
    (hread : readValue name.text ts = .ok (value, closer :: rest)) :
    readParameterList (hash :: opener :: keyword :: name :: equals :: ts) =
      .ok ([⟨name.text, none, value⟩], rest) := by
  rw [readParameterList_of_keyword hhash hopener hkeyword, readParameters_eq,
    readParameter_untyped hkeyword hname hequals, hread]
  show (if closer.kind = .comma then _ else if closer.kind = .rightParen then _ else _) = _
  rw [if_neg (by simp [hcloser]), if_pos hcloser]

theorem readParameterList_of_value_error (hhash : hash.kind = .hash)
    (hopener : opener.kind = .leftParen) (hkeyword : keyword.kind = .keyword .parameter)
    (hname : name.kind = .identifier) (hequals : equals.kind = .equals) {fault : Fault}
    (hread : readValue name.text ts = .error fault) :
    readParameterList (hash :: opener :: keyword :: name :: equals :: ts) = .error fault := by
  rw [readParameterList_of_keyword hhash hopener hkeyword, readParameters_eq,
    readParameter_untyped hkeyword hname hequals, hread]
  rfl

end Parameters

/-! ### The text of a module -/

section Texts

variable {name : String} {value : Int}

theorem toList_defaultText (name : String) (value : Int) :
    (defaultText name value).toList =
      Keyword.moduleStart.text.toList ++ ' ' :: 'M' :: ' ' :: '#' :: '(' ::
        (Keyword.parameter.text.toList ++ ' ' :: (name.toList ++ ' ' :: '=' :: ' ' ::
          ((toString value).toList ++ ')' :: ' ' :: '(' :: ')' :: ';' :: ' ' ::
            (Keyword.moduleEnd.text.toList ++ [])))) := by
  unfold defaultText
  -- the value stays whole: unfolding its text is what `simp` would do first
  generalize toString value = digits
  simp [Keyword.text]

/-- What stands behind some lexemes keeps its lexemes, at some place. -/
theorem exists_locate_append (offset : Nat) (ls ls' : List Lexeme) :
    ∃ place, locate offset (ls ++ ls') = locate offset ls ++ locate place ls' := by
  induction ls generalizing offset with
  | nil => exact ⟨offset, rfl⟩
  | cons l ls ih =>
    obtain ⟨place, hplace⟩ := ih (offset + byteLength l.chars)
    exact ⟨place, congrArg (Token.mk l offset :: ·) hplace⟩

/-- The significant tokens of the text in front of the value. -/
def tokensToValue (name : String) : List Token :=
  [⟨⟨.keyword .moduleStart, Keyword.moduleStart.text.toList⟩, 0⟩, ⟨⟨.identifier, ['M']⟩, 7⟩,
    ⟨⟨.hash, ['#']⟩, 9⟩, ⟨⟨.leftParen, ['(']⟩, 10⟩,
    ⟨⟨.keyword .parameter, Keyword.parameter.text.toList⟩, 11⟩, ⟨⟨.identifier, name.toList⟩, 21⟩,
    ⟨⟨.equals, ['=']⟩, 21 + byteLength name.toList + 1⟩]

/-- The significant tokens of the text behind the value. -/
def tokensFromValue (place : Nat) : List Token :=
  [⟨⟨.rightParen, [')']⟩, place⟩, ⟨⟨.leftParen, ['(']⟩, place + 2⟩,
    ⟨⟨.rightParen, [')']⟩, place + 3⟩, ⟨⟨.semicolon, [';']⟩, place + 4⟩,
    ⟨⟨.keyword .moduleEnd, Keyword.moduleEnd.text.toList⟩, place + 6⟩]

/-- The text is a header, a parameter with its value, and an end. -/
theorem exists_significantTokens_defaultText (hname : SpellsIdentifier name.toList)
    (value : Int) :
    ∃ place, significantTokens (defaultText name value) =
      tokensToValue name ++
        (locate (21 + byteLength name.toList + 3) (valueLexemes value) ++
          tokensFromValue place) := by
  have hheader : SpellsIdentifier ['M'] := ⟨'M', [], rfl, rfl, List.forall_mem_nil _, rfl⟩
  have hM : ∀ rest, Stops isWordPart rest →
      lexemes ('M' :: rest) = ⟨.identifier, ['M']⟩ :: lexemes rest :=
    fun _ => hheader.lexemes_append
  let behind : List Lexeme :=
    [⟨.rightParen, [')']⟩, ⟨.whitespace, [' ']⟩, ⟨.leftParen, ['(']⟩, ⟨.rightParen, [')']⟩,
      ⟨.semicolon, [';']⟩, ⟨.whitespace, [' ']⟩,
      ⟨.keyword .moduleEnd, Keyword.moduleEnd.text.toList⟩]
  have hlexemes : lexemes (defaultText name value).toList =
      ⟨.keyword .moduleStart, Keyword.moduleStart.text.toList⟩ :: ⟨.whitespace, [' ']⟩ ::
        ⟨.identifier, ['M']⟩ :: ⟨.whitespace, [' ']⟩ :: ⟨.hash, ['#']⟩ :: ⟨.leftParen, ['(']⟩ ::
        ⟨.keyword .parameter, Keyword.parameter.text.toList⟩ :: ⟨.whitespace, [' ']⟩ ::
        ⟨.identifier, name.toList⟩ :: ⟨.whitespace, [' ']⟩ :: ⟨.equals, ['=']⟩ ::
        ⟨.whitespace, [' ']⟩ :: (valueLexemes value ++ behind) := by
    rw [toList_defaultText, lexemes_keyword_append _ (stops_cons.2 rfl),
      lexemes_blank_cons (stops_cons.2 rfl), hM _ (stops_cons.2 rfl),
      lexemes_blank_cons (stops_cons.2 rfl), lexemes_punctuation_cons (by decide),
      lexemes_punctuation_cons (by decide), lexemes_keyword_append _ (stops_cons.2 rfl),
      lexemes_blank_cons hname.spellsWord.stops_isSpace,
      hname.lexemes_append (stops_cons.2 rfl), lexemes_blank_cons (stops_cons.2 rfl),
      lexemes_punctuation_cons (by decide), lexemes_blank_cons (stops_isSpace_toString value),
      lexemes_toString_append value (stops_cons.2 rfl) (by simp),
      lexemes_punctuation_cons (by decide), lexemes_blank_cons (stops_cons.2 rfl),
      lexemes_punctuation_cons (by decide), lexemes_punctuation_cons (by decide),
      lexemes_punctuation_cons (by decide),
      lexemes_blank_cons (Keyword.spellsWord_text _).stops_isSpace,
      lexemes_keyword_append _ stops_nil, lexemes_nil]
    rfl
  obtain ⟨place, hplace⟩ := exists_locate_append (21 + byteLength name.toList + 3)
    (valueLexemes value) behind
  have htokens : significantTokens (defaultText name value) =
      tokensToValue name ++ (locate (21 + byteLength name.toList + 3)
        (valueLexemes value ++ behind)).filter (!·.kind.isTrivia) := by
    rw [significantTokens, tokens, hlexemes]
    rfl
  have hvalue : (locate (21 + byteLength name.toList + 3) (valueLexemes value)).filter
      (!·.kind.isTrivia) = locate (21 + byteLength name.toList + 3) (valueLexemes value) := by
    unfold valueLexemes
    split <;> rfl
  refine ⟨place, ?_⟩
  rw [htokens, hplace, List.filter_append, hvalue]
  rfl

/-- The module has the value that is read. -/
theorem ofTokens_of_readValue {ts : List Token} {default : Int64} {place : Nat}
    (hread : readValue name ts = .ok (default, tokensFromValue place)) :
    Interface.ofTokens (tokensToValue name ++ ts) =
      .ok ⟨"M", ⟨7, 8⟩, [], [⟨name, none, default⟩]⟩ := by
  rw [← String.ofList_toList (s := name)] at hread
  have hlist : readParameterList ((tokensToValue name ++ ts).drop 2) =
      .ok ([⟨String.ofList name.toList, none, default⟩], (tokensFromValue place).tail) :=
    readParameterList_of_value rfl rfl rfl rfl rfl rfl hread
  show (readParameterList ((tokensToValue name ++ ts).drop 2) >>= _) = _
  rw [hlist, String.ofList_toList]
  rfl

/-- The fault of the value is that of the module. -/
theorem ofTokens_of_readValue_error {ts : List Token} {fault : Fault}
    (hread : readValue name ts = .error fault) :
    Interface.ofTokens (tokensToValue name ++ ts) = .error fault := by
  rw [← String.ofList_toList (s := name)] at hread
  have hlist : readParameterList ((tokensToValue name ++ ts).drop 2) = .error fault :=
    readParameterList_of_value_error rfl rfl rfl rfl rfl hread
  show (readParameterList ((tokensToValue name ++ ts).drop 2) >>= _) = _
  rw [hlist]
  rfl

/-- **A number is read back**, if its magnitude is the value of a literal. -/
theorem ofText_defaultText_of_lt (hname : SpellsIdentifier name.toList)
    (hvalue : value.natAbs < 2 ^ 63) :
    Interface.ofText (defaultText name value) =
      .ok ⟨"M", ⟨7, 8⟩, [], [⟨name, none, Int64.ofInt value⟩]⟩ := by
  obtain ⟨place, htokens⟩ := exists_significantTokens_defaultText hname value
  have hread : readValue name (locate (21 + byteLength name.toList + 3) (valueLexemes value) ++
      tokensFromValue place) = .ok (Int64.ofInt value, tokensFromValue place) :=
    readValue_append (parameterValue_valueLexemes hvalue) (map_toLexeme_locate _ _) (Or.inr rfl)
  rw [Interface.ofText, htokens, ofTokens_of_readValue hread]

/-- A number is refused, whatever its sign, if its magnitude is too large for a literal. -/
theorem ofText_defaultText_of_le (hname : SpellsIdentifier name.toList)
    (hvalue : 2 ^ 63 ≤ value.natAbs) :
    Interface.ofText (defaultText name value) =
      .error ((Fault.parameterLiteral name
        (digitsToken (24 + byteLength name.toList) value) .overflow).diagnostic 0) := by
  obtain ⟨place, htokens⟩ := exists_significantTokens_defaultText hname value
  have hread := readValue_of_le hvalue name (21 + byteLength name.toList + 3)
    (tokensFromValue place)
  rw [Interface.ofText, htokens, ofTokens_of_readValue_error hread, Nat.add_right_comm]
  rfl

end Texts

/-- The magnitude of the least value of 64 bits is too large for a literal, and no other. -/
theorem natAbs_toInt_lt_iff {value : Int64} :
    value.toInt.natAbs < 2 ^ 63 ↔ value ≠ Int64.minValue := by
  have hlow := value.le_toInt
  have hhigh := value.toInt_lt
  have hmin : Int64.minValue.toInt = -2 ^ 63 := Int64.toInt_minValue
  rw [ne_eq, ← Int64.toInt_inj, hmin]
  omega

/-- What is said about the least value: its digits do not fit. -/
theorem diagnostic_least (name : String) :
    (Fault.parameterLiteral name (digitsToken (24 + byteLength name.toList)
      Int64.minValue.toInt) .overflow).diagnostic 0 =
        ⟨.badInteger, "value of parameter '" ++ name ++
          "': '9223372036854775808' does not fit in a 64-bit integer",
          ⟨25 + byteLength name.toList, 44 + byteLength name.toList⟩, none, []⟩ := by
  have hdigits : Nat.toDigits 10 Int64.minValue.toInt.natAbs =
      ['9', '2', '2', '3', '3', '7', '2', '0', '3', '6', '8', '5', '4', '7', '7', '5', '8', '0',
        '8'] := by decide
  have htoken : digitsToken (24 + byteLength name.toList) Int64.minValue.toInt =
      ⟨⟨.integer, Nat.toDigits 10 Int64.minValue.toInt.natAbs⟩, 25 + byteLength name.toList⟩ := by
    rw [digitsToken, if_pos (by decide), Nat.add_right_comm]
  have hsize : byteLength (Nat.toDigits 10 Int64.minValue.toInt.natAbs) = 19 := by
    rw [hdigits]
    rfl
  have htext : String.ofList (Nat.toDigits 10 Int64.minValue.toInt.natAbs) =
      "9223372036854775808" := by
    rw [hdigits]
  have hmessage : "': " ++ LiteralFault.overflow.message "9223372036854775808" =
      "': '9223372036854775808' does not fit in a 64-bit integer" := by
    simp [LiteralFault.message]
  rw [htoken]
  simp only [Fault.diagnostic, Token.text, Lexeme.text, Token.span, String.append_assoc, htext,
    hmessage, hsize, Nat.add_right_comm]

/-- **A default value of 64 bits is written and read back, but the least one.** That one is
refused: the literal behind its minus has one more than the greatest value. -/
theorem ofText_defaultText (name : String) (hname : LexesAsIdentifier name) (value : Int64) :
    Interface.ofText (defaultText name value.toInt) =
      if value = Int64.minValue then
        .error ⟨.badInteger, "value of parameter '" ++ name ++
          "': '9223372036854775808' does not fit in a 64-bit integer",
          ⟨25 + byteLength name.toList, 44 + byteLength name.toList⟩, none, []⟩
      else .ok ⟨"M", ⟨7, 8⟩, [], [⟨name, none, value⟩]⟩ := by
  rw [lexesAsIdentifier_iff] at hname
  split
  · next hleast =>
    have hlarge : 2 ^ 63 ≤ Int64.minValue.toInt.natAbs := by decide
    rw [hleast, ofText_defaultText_of_le hname hlarge, diagnostic_least]
  · next hleast =>
    have hsmall : value.toInt.natAbs < 2 ^ 63 := natAbs_toInt_lt_iff.2 hleast
    rw [ofText_defaultText_of_lt hname hsmall, Int64.ofInt_toInt]

/-- The least value that is read back. -/
theorem ofText_defaultText_least_read :
    LexesAsIdentifier "W" ∧
      defaultText "W" (Int64.minValue + 1).toInt =
        "module M #(parameter W = -9223372036854775807) (); endmodule" ∧
      Interface.ofText (defaultText "W" (Int64.minValue + 1).toInt) =
        .ok ⟨"M", ⟨7, 8⟩, [], [⟨"W", none, Int64.minValue + 1⟩]⟩ := by
  have hname : LexesAsIdentifier "W" :=
    lexesAsIdentifier_iff.2 ⟨'W', [], rfl, rfl, List.forall_mem_nil _, rfl⟩
  have hread := ofText_defaultText "W" hname (Int64.minValue + 1)
  exact ⟨hname, rfl, hread.trans (if_neg (by decide))⟩

/-- Not every default value of 64 bits can be written. -/
theorem not_forall_ofText_defaultText :
    ¬ ∀ name (value : Int64), LegalName name →
      ∃ interface, Interface.ofText (defaultText name value.toInt) = .ok interface ∧
        interface.parameters = [⟨name, none, value⟩] := by
  intro h
  have hlegal : LegalName "P" := (legalName_iff .lower).2 (by decide +kernel)
  obtain ⟨interface, hread, -⟩ := h "P" Int64.minValue hlegal
  have hlarge : 2 ^ 63 ≤ Int64.minValue.toInt.natAbs := by decide
  rw [ofText_defaultText_of_le hlegal.spellsIdentifier hlarge] at hread
  cases hread

end HdlModule
