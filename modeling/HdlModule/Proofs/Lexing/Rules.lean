import Mathlib.Computability.Language
import HdlModule.Proofs.Lexing.Leading

/-!
# The rules of lexemes

A table of rules says which words may be a lexeme, and of which kind. A rule is a regular
language, written with the characters that stand in it. The rules overlap: a word may be in the
languages of several rules, and a part of a word of one rule may be a word of another one.

The languages are compared here with the character classes and the shapes that lexemes are found
by.

## Main definitions

* `Rule`, `rules`: a rule, and the table of all rules
* `Spells word k`: the word is the keyword, whatever the case of its ASCII letters
* `Matches k word`: some rule of the kind matches the word
* `RuleWord k word`: the words of each kind, by character classes

## Main results

* `matches_iff`: the rules match these words
-/

open Computability

namespace HdlModule

/-! ### The table -/

/-- The characters of a range. -/
def between (low high : Char) : Language Char := {word | ∃ c, word = [c] ∧ low ≤ c ∧ c ≤ high}

/-- The characters of a list. -/
def oneOf (cs : String) : Language Char := {word | ∃ c, word = [c] ∧ c ∈ cs.toList}

/-- All characters but those of a list. -/
def noneOf (cs : String) : Language Char := {word | ∃ c, word = [c] ∧ c ∉ cs.toList}

/-- One word of the language or more. -/
def oneOrMore (l : Language Char) : Language Char := l * l∗

/-- A word of the language, or nothing. -/
def optional (l : Language Char) : Language Char := 1 + l

/-- The ASCII letters. -/
def letters : Language Char := between 'a' 'z' + between 'A' 'Z'

/-- The decimal digits. -/
def digits : Language Char := between '0' '9'

/-- Blanks. -/
def blankWords : Language Char := oneOrMore (oneOf " \t\r\n\x0c")

/-- Line comments, up to the end of the line. -/
def commentWords : Language Char := oneOf "/" * (oneOf "/" * (noneOf "\r\n")∗)

/-- Words, keywords among them. -/
def identifierWords : Language Char := (letters + oneOf "_") * (letters + digits + oneOf "_$")∗

/-- Decimal literals. -/
def decimalWords : Language Char := digits * (digits + oneOf "_")∗

/-- What follows the apostrophe of a based literal. -/
def basedTails : Language Char :=
  optional (oneOf "sS") * (oneOf "bBoOdDhH" *
    oneOrMore (digits + between 'a' 'f' + between 'A' 'F' + oneOf "xXzZ?_"))

/-- Based literals, with a size or without one. -/
def basedWords : Language Char := optional decimalWords * (oneOf "'" * basedTails)

/-- The items of a string. -/
def itemWords : Language Char := noneOf "\x22\x5c\r\n" + oneOf "\x5c" * noneOf "\n"

/-- Strings. -/
def stringWords : Language Char := oneOf "\x22" * (itemWords∗ * oneOf "\x22")

/-- Compiler directives. -/
def directiveWords : Language Char :=
  oneOf "\x60" * ((letters + oneOf "_") * (letters + digits + oneOf "_")∗)

/-- A kind, and the words that may be a lexeme of the kind. -/
structure Rule where
  kind : TokenKind
  language : Language Char

/-- The rules that describe words by patterns. -/
def patternRules : List Rule := [
  ⟨.whitespace, blankWords⟩, ⟨.lineComment, commentWords⟩, ⟨.identifier, identifierWords⟩,
  ⟨.integer, decimalWords⟩, ⟨.basedInteger, basedWords⟩, ⟨.string, stringWords⟩,
  ⟨.directive, directiveWords⟩]

/-- The punctuation marks. -/
def marks : List (TokenKind × String) := [
  (.leftParen, "("), (.rightParen, ")"), (.leftBracket, "["), (.rightBracket, "]"),
  (.leftBrace, "\x7b"), (.rightBrace, "\x7d"), (.semicolon, ";"), (.doubleColon, "::"),
  (.colon, ":"), (.comma, ","), (.dot, "."), (.equals, "="), (.hash, "#"), (.plus, "+"),
  (.minus, "-"), (.star, "*"), (.slash, "/"), (.blockCommentStart, "/*")]

/-- The word is the keyword, whatever the case of its ASCII letters. -/
def Spells (word : List Char) (k : Keyword) : Prop := word.map Char.toLower = k.text.toList

/-- **The table of rules.** -/
def rules : List Rule :=
  patternRules ++
    marks.map (fun mark => ⟨mark.1, {mark.2.toList}⟩) ++
    Keyword.all.map (fun k => ⟨.keyword k, {word | Spells word k}⟩)

/-- Some rule of the kind matches the word. -/
def Matches (k : TokenKind) (word : List Char) : Prop :=
  ∃ rule ∈ rules, rule.kind = k ∧ word ∈ rule.language

/-! ### Languages of characters -/

/-- The characters of a class, as words. -/
def charWords (p : Char → Bool) : Language Char := {word | ∃ c, word = [c] ∧ p c = true}

section Characters

variable {p q : Char → Bool} {word : List Char} {l : Language Char}

theorem charWords_congr (h : ∀ c, p c = q c) : charWords p = charWords q :=
  congrArg charWords (funext h)

theorem charWords_ext (h : ∀ word, word ∈ l ↔ ∃ c, word = [c] ∧ p c = true) : l = charWords p :=
  Language.ext h

theorem between_eq (low high : Char) :
    between low high = charWords fun c => decide (low ≤ c) && decide (c ≤ high) := by
  refine charWords_ext fun word => exists_congr fun c => ?_
  rw [Bool.and_eq_true, decide_eq_true_eq, decide_eq_true_eq]

theorem oneOf_eq (cs : String) : oneOf cs = charWords cs.toList.contains := by
  refine charWords_ext fun word => exists_congr fun c => ?_
  rw [List.contains_iff_mem]

theorem noneOf_eq (cs : String) : noneOf cs = charWords fun c => !cs.toList.contains c := by
  refine charWords_ext fun word => exists_congr fun c => ?_
  rw [Bool.not_eq_true', ← Bool.not_eq_true, List.contains_iff_mem]

theorem charWords_add : charWords p + charWords q = charWords fun c => p c || q c := by
  refine charWords_ext fun word => ?_
  rw [Language.mem_add]
  constructor
  · rintro (⟨c, rfl, hc⟩ | ⟨c, rfl, hc⟩)
    · exact ⟨c, rfl, by rw [hc, Bool.true_or]⟩
    · exact ⟨c, rfl, by rw [hc, Bool.or_true]⟩
  · rintro ⟨c, rfl, hc⟩
    rcases Bool.or_eq_true_iff.1 hc with hc | hc
    · exact Or.inl ⟨c, rfl, hc⟩
    · exact Or.inr ⟨c, rfl, hc⟩

theorem mem_charWords_mul :
    word ∈ charWords p * l ↔ ∃ c cs, word = c :: cs ∧ p c = true ∧ cs ∈ l := by
  rw [Language.mem_mul]
  constructor
  · rintro ⟨_, ⟨c, rfl, hc⟩, cs, hcs, rfl⟩
    exact ⟨c, cs, rfl, hc, hcs⟩
  · rintro ⟨c, cs, rfl, hc, hcs⟩
    exact ⟨[c], ⟨c, rfl, hc⟩, cs, hcs, rfl⟩

theorem mem_kstar_charWords : word ∈ (charWords p)∗ ↔ ∀ c ∈ word, p c = true := by
  rw [Language.mem_kstar]
  constructor
  · rintro ⟨words, rfl, hwords⟩ c hc
    obtain ⟨single, hsingle, hc⟩ := List.mem_flatten.1 hc
    obtain ⟨d, rfl, hd⟩ := hwords single hsingle
    rwa [List.mem_singleton.1 hc]
  · intro h
    refine ⟨word.map fun c => [c], (List.flatMap_singleton' word).symm, ?_⟩
    intro single hsingle
    obtain ⟨c, hc, rfl⟩ := List.mem_map.1 hsingle
    exact ⟨c, rfl, h c hc⟩

/-- A list of one character stands for this character. -/
theorem mem_oneOf_mul {cs : String} {x : Char} (hcs : cs.toList = [x]) :
    word ∈ oneOf cs * l ↔ ∃ ds, word = x :: ds ∧ ds ∈ l := by
  rw [oneOf_eq, hcs, mem_charWords_mul]
  simp

end Characters

/-! ### Letters and their case -/

section Case

variable {c : Char}

theorem isUpper_iff : c.isUpper = true ↔ 65 ≤ c.toNat ∧ c.toNat ≤ 90 := decide_eq_true_iff

theorem toNat_toLower (h : c.isUpper = true) : c.toLower.toNat = c.toNat + 32 := by
  have hrange : c.val ≥ 'A'.val ∧ c.val ≤ 'Z'.val := of_decide_eq_true h
  have hhigh : c.toNat ≤ 90 := hrange.2
  rw [show c.toLower = _ from dif_pos hrange]
  show (c.val + 32).toNat = _
  rw [UInt32.toNat_add]
  show (c.toNat + 32) % _ = _
  omega

theorem toLower_of_not_isUpper (h : ¬c.isUpper = true) : c.toLower = c := by
  have hrange : ¬(c.val ≥ 'A'.val ∧ c.val ≤ 'Z'.val) := fun hr => h (decide_eq_true hr)
  exact dif_neg hrange

/-- A letter in lower case is one of two letters. -/
theorem toLower_eq_iff (c low up : Char) (hup : up.isUpper = true)
    (hlow : low.toNat = up.toNat + 32) : c.toLower = low ↔ c = low ∨ c = up := by
  have hrange := isUpper_iff.1 hup
  simp only [← Char.toNat_inj]
  by_cases h : c.isUpper = true
  · have hrange := isUpper_iff.1 h
    rw [toNat_toLower h]
    omega
  · rw [toLower_of_not_isUpper h]
    rw [isUpper_iff] at h
    omega

theorem isAlpha_of_toLower (h : c.toLower.isLower = true) : c.isAlpha = true := by
  refine Bool.or_eq_true_iff.2 ?_
  by_cases hupper : c.isUpper = true
  · exact Or.inl hupper
  · rw [toLower_of_not_isUpper hupper] at h
    exact Or.inr h

end Case

/-! ### Character classes as languages -/

theorem blanks_eq : oneOf " \t\r\n\x0c" = charWords isSpace := by
  rw [oneOf_eq]
  exact charWords_congr fun c => by
    simp [isSpace, Bool.beq_eq_decide_eq, Bool.or_assoc]

theorem lineCharacters_eq : noneOf "\r\n" = charWords (!isLineEnd ·) := by
  rw [noneOf_eq]
  exact charWords_congr fun c => by simp [isLineEnd, Bool.beq_eq_decide_eq]

theorem letters_eq : letters = charWords Char.isAlpha := by
  rw [letters, between_eq, between_eq, charWords_add]
  refine charWords_congr fun c => ?_
  -- the letters in upper case come first in the library
  show _ = (decide ('A'.val ≤ c.val ∧ c.val ≤ 'Z'.val) ||
    (decide ('a'.val ≤ c.val) && decide (c.val ≤ 'z'.val)))
  rw [Bool.or_comm, Bool.decide_and]
  rfl

theorem digits_eq : digits = charWords Char.isDigit := between_eq '0' '9'

theorem wordStarts_eq : letters + oneOf "_" = charWords isWordStart := by
  rw [letters_eq, oneOf_eq, charWords_add]
  exact charWords_congr fun c => by simp [isWordStart, Bool.beq_eq_decide_eq]

theorem directiveParts_eq : letters + digits + oneOf "_" = charWords isDirectivePart := by
  rw [letters_eq, digits_eq, oneOf_eq, charWords_add, charWords_add]
  exact charWords_congr fun c => by
    simp [isDirectivePart, Char.isAlphanum, Bool.beq_eq_decide_eq]

theorem wordParts_eq : letters + digits + oneOf "_$" = charWords isWordPart := by
  rw [letters_eq, digits_eq, oneOf_eq, charWords_add, charWords_add]
  exact charWords_congr fun c => by
    simp [isWordPart, isDirectivePart, Char.isAlphanum, Bool.beq_eq_decide_eq, Bool.or_assoc]

theorem decimalParts_eq : digits + oneOf "_" = charWords isDecimalPart := by
  rw [digits_eq, oneOf_eq, charWords_add]
  exact charWords_congr fun c => by simp [isDecimalPart, Bool.beq_eq_decide_eq]

theorem signLetters_eq : oneOf "sS" = charWords isSignLetter := by
  rw [oneOf_eq]
  refine charWords_congr fun c => ?_
  rw [Bool.eq_iff_iff]
  simp [isSignLetter, toLower_eq_iff c 's' 'S' rfl rfl]

theorem baseLetters_eq : oneOf "bBoOdDhH" = charWords isBaseLetter := by
  rw [oneOf_eq]
  refine charWords_congr fun c => ?_
  rw [Bool.eq_iff_iff]
  simp [isBaseLetter, toLower_eq_iff c 'b' 'B' rfl rfl, toLower_eq_iff c 'o' 'O' rfl rfl,
    toLower_eq_iff c 'd' 'D' rfl rfl, toLower_eq_iff c 'h' 'H' rfl rfl, or_assoc]

/-- The letters among the digits of based literals, unknown bits included. -/
theorem contains_toLower_eq (c : Char) :
    "abcdefxz".toList.contains c.toLower =
      (decide ('a' ≤ c) && decide (c ≤ 'f') || decide ('A' ≤ c) && decide (c ≤ 'F') ||
        "xXzZ".toList.contains c) := by
  have hrange : ∀ low high : Char,
      (low ≤ c ∧ c ≤ high) ↔ low.toNat ≤ c.toNat ∧ c.toNat ≤ high.toNat := fun _ _ => Iff.rfl
  rw [Bool.eq_iff_iff]
  simp only [Bool.or_eq_true, Bool.and_eq_true, decide_eq_true_eq, hrange, List.contains_iff_mem]
  simp [toLower_eq_iff c 'a' 'A' rfl rfl, toLower_eq_iff c 'b' 'B' rfl rfl,
    toLower_eq_iff c 'c' 'C' rfl rfl, toLower_eq_iff c 'd' 'D' rfl rfl,
    toLower_eq_iff c 'e' 'E' rfl rfl, toLower_eq_iff c 'f' 'F' rfl rfl,
    toLower_eq_iff c 'x' 'X' rfl rfl, toLower_eq_iff c 'z' 'Z' rfl rfl, ← Char.toNat_inj]
  omega

theorem basedDigits_eq :
    digits + between 'a' 'f' + between 'A' 'F' + oneOf "xXzZ?_" = charWords isBasedDigit := by
  rw [digits_eq, between_eq, between_eq, oneOf_eq, charWords_add, charWords_add, charWords_add]
  refine charWords_congr fun c => ?_
  rw [isBasedDigit, isDecimalPart, contains_toLower_eq]
  have hcontains : "xXzZ?_".toList.contains c =
      ("xXzZ".toList.contains c || (c == '?' || c == '_')) := by
    simp [Bool.beq_eq_decide_eq, Bool.or_assoc]
  rw [hcontains]
  ac_rfl

/-! ### Words of the rules -/

/-- The words of each kind, by character classes. -/
inductive RuleWord : TokenKind → List Char → Prop
  | space {c : Char} {ds : List Char} (hc : isSpace c = true) (hds : ∀ d ∈ ds, isSpace d = true) :
      RuleWord .whitespace (c :: ds)
  | comment {ds : List Char} (hds : ∀ d ∈ ds, (!isLineEnd d) = true) :
      RuleWord .lineComment ('/' :: '/' :: ds)
  | identifier {c : Char} {ds : List Char} (hc : isWordStart c = true)
      (hds : ∀ d ∈ ds, isWordPart d = true) : RuleWord .identifier (c :: ds)
  | integer {c : Char} {ds : List Char} (hc : c.isDigit = true)
      (hds : ∀ d ∈ ds, isDecimalPart d = true) : RuleWord .integer (c :: ds)
  | sized {c : Char} {ds tail : List Char} (hc : c.isDigit = true)
      (hds : ∀ d ∈ ds, isDecimalPart d = true) (htail : BasedTail tail) :
      RuleWord .basedInteger (c :: (ds ++ '\x27' :: tail))
  | unsized {tail : List Char} (htail : BasedTail tail) : RuleWord .basedInteger ('\x27' :: tail)
  | string {ds : List Char} (hds : StringItems ds) : RuleWord .string ('\x22' :: (ds ++ ['\x22']))
  | directive {d : Char} {ds : List Char} (hd : isWordStart d = true)
      (hds : ∀ d ∈ ds, isDirectivePart d = true) : RuleWord .directive ('\x60' :: d :: ds)
  | mark {k : TokenKind} {text : String} (hmark : (k, text) ∈ marks) : RuleWord k text.toList
  | keyword {k : Keyword} {word : List Char} (hword : Spells word k) : RuleWord (.keyword k) word

section Words

variable {p q : Char → Bool} {word : List Char}

/-- A character of one class with characters of another class behind it. -/
theorem mem_charWords_mul_kstar : word ∈ charWords p * (charWords q)∗ ↔
    ∃ c ds, word = c :: ds ∧ p c = true ∧ ∀ d ∈ ds, q d = true := by
  simp only [mem_charWords_mul, mem_kstar_charWords]

theorem mem_blankWords : word ∈ blankWords ↔
    ∃ c ds, word = c :: ds ∧ isSpace c = true ∧ ∀ d ∈ ds, isSpace d = true := by
  rw [blankWords, oneOrMore, blanks_eq, mem_charWords_mul_kstar]

theorem mem_commentWords : word ∈ commentWords ↔
    ∃ ds, word = '/' :: '/' :: ds ∧ ∀ d ∈ ds, (!isLineEnd d) = true := by
  rw [commentWords, lineCharacters_eq, mem_oneOf_mul rfl]
  constructor
  · rintro ⟨_, rfl, hword⟩
    obtain ⟨ds, rfl, hds⟩ := (mem_oneOf_mul rfl).1 hword
    exact ⟨ds, rfl, mem_kstar_charWords.1 hds⟩
  · rintro ⟨ds, rfl, hds⟩
    exact ⟨_, rfl, (mem_oneOf_mul rfl).2 ⟨ds, rfl, mem_kstar_charWords.2 hds⟩⟩

theorem mem_identifierWords : word ∈ identifierWords ↔
    ∃ c ds, word = c :: ds ∧ isWordStart c = true ∧ ∀ d ∈ ds, isWordPart d = true := by
  rw [identifierWords, wordStarts_eq, wordParts_eq, mem_charWords_mul_kstar]

theorem mem_decimalWords : word ∈ decimalWords ↔
    ∃ c ds, word = c :: ds ∧ c.isDigit = true ∧ ∀ d ∈ ds, isDecimalPart d = true := by
  rw [decimalWords, decimalParts_eq, digits_eq, mem_charWords_mul_kstar]

theorem mem_directiveWords : word ∈ directiveWords ↔
    ∃ d ds, word = '\x60' :: d :: ds ∧ isWordStart d = true ∧
      ∀ d ∈ ds, isDirectivePart d = true := by
  rw [directiveWords, wordStarts_eq, directiveParts_eq, mem_oneOf_mul rfl]
  constructor
  · rintro ⟨_, rfl, hword⟩
    obtain ⟨d, ds, rfl, hd, hds⟩ := mem_charWords_mul_kstar.1 hword
    exact ⟨d, ds, rfl, hd, hds⟩
  · rintro ⟨d, ds, rfl, hd, hds⟩
    exact ⟨_, rfl, mem_charWords_mul_kstar.2 ⟨d, ds, rfl, hd, hds⟩⟩

theorem mem_optional_mul {l m : Language Char} :
    word ∈ optional l * m ↔ word ∈ m ∨ word ∈ l * m := by
  rw [optional, add_mul, one_mul, Language.mem_add]

theorem mem_basedTails : word ∈ basedTails ↔ BasedTail word := by
  have hunsigned : ∀ word : List Char,
      word ∈ charWords isBaseLetter * (charWords isBasedDigit * (charWords isBasedDigit)∗) ↔
        ∃ base digit ds, word = base :: digit :: ds ∧ isBaseLetter base = true ∧
          isBasedDigit digit = true ∧ ∀ d ∈ ds, isBasedDigit d = true := by
    intro word
    simp only [mem_charWords_mul, mem_kstar_charWords]
    constructor
    · rintro ⟨base, _, rfl, hbase, digit, ds, rfl, hdigit, hds⟩
      exact ⟨base, digit, ds, rfl, hbase, hdigit, hds⟩
    · rintro ⟨base, digit, ds, rfl, hbase, hdigit, hds⟩
      exact ⟨base, digit :: ds, rfl, hbase, digit, ds, rfl, hdigit, hds⟩
  rw [basedTails, oneOrMore, basedDigits_eq, signLetters_eq, baseLetters_eq, mem_optional_mul,
    mem_charWords_mul (p := isSignLetter)]
  simp only [hunsigned]
  constructor
  · rintro (⟨base, digit, ds, rfl, hbase, hdigit, hds⟩ |
      ⟨sign, _, rfl, hsign, base, digit, ds, rfl, hbase, hdigit, hds⟩)
    · exact .unsigned hbase hdigit hds
    · exact .signed hsign hbase hdigit hds
  · rintro (⟨hbase, hdigit, hds⟩ | ⟨hsign, hbase, hdigit, hds⟩)
    · exact Or.inl ⟨_, _, _, rfl, hbase, hdigit, hds⟩
    · exact Or.inr ⟨_, _, rfl, hsign, _, _, _, rfl, hbase, hdigit, hds⟩

theorem mem_basedWords : word ∈ basedWords ↔
    (∃ tail, word = '\x27' :: tail ∧ BasedTail tail) ∨
      ∃ c ds tail, word = c :: (ds ++ '\x27' :: tail) ∧ c.isDigit = true ∧
        (∀ d ∈ ds, isDecimalPart d = true) ∧ BasedTail tail := by
  have hbased : ∀ word : List Char,
      word ∈ oneOf "'" * basedTails ↔ ∃ tail, word = '\x27' :: tail ∧ BasedTail tail := by
    intro word
    have hquote : "'".toList = ['\x27'] := rfl
    simp only [mem_oneOf_mul hquote, mem_basedTails]
  rw [basedWords, mem_optional_mul, hbased, Language.mem_mul]
  refine or_congr_right ⟨?_, ?_⟩
  · rintro ⟨size, hsize, _, hquoted, rfl⟩
    obtain ⟨c, ds, rfl, hc, hds⟩ := mem_decimalWords.1 hsize
    obtain ⟨tail, rfl, htail⟩ := (hbased _).1 hquoted
    exact ⟨c, ds, tail, rfl, hc, hds, htail⟩
  · rintro ⟨c, ds, tail, rfl, hc, hds, htail⟩
    exact ⟨c :: ds, mem_decimalWords.2 ⟨c, ds, rfl, hc, hds⟩, _, (hbased _).2 ⟨tail, rfl, htail⟩,
      rfl⟩

/-- The characters that need no backslash in a string. -/
theorem plainCharacters_iff {c : Char} :
    c ∉ "\x22\x5c\r\n".toList ↔ c ≠ '\x22' ∧ c ≠ '\x5c' ∧ isLineEnd c = false := by
  simp [isLineEnd]

theorem mem_itemWords : word ∈ itemWords ↔ StringItem word := by
  rw [itemWords, Language.mem_add, mem_oneOf_mul rfl]
  constructor
  · rintro (⟨c, rfl, hc⟩ | ⟨_, rfl, c, rfl, hc⟩)
    · obtain ⟨hquote, hslash, hend⟩ := plainCharacters_iff.1 hc
      exact .plain hquote hslash hend
    · exact .escaped (by simpa using hc)
  · rintro (⟨hquote, hslash, hend⟩ | hc)
    · exact Or.inl ⟨_, rfl, plainCharacters_iff.2 ⟨hquote, hslash, hend⟩⟩
    · exact Or.inr ⟨_, rfl, _, rfl, by simpa using hc⟩

theorem mem_kstar_itemWords : word ∈ itemWords∗ ↔ StringItems word := by
  rw [Language.mem_kstar]
  constructor
  · rintro ⟨items, rfl, hitems⟩
    induction items with
    | nil => exact .nil
    | cons item items ih =>
      rw [List.forall_mem_cons] at hitems
      exact .cons (mem_itemWords.1 hitems.1) (ih hitems.2)
  · intro h
    induction h with
    | nil => exact ⟨[], rfl, by simp⟩
    | @cons item cs hitem _ ih =>
      obtain ⟨items, rfl, hitems⟩ := ih
      exact ⟨item :: items, rfl, List.forall_mem_cons.2 ⟨mem_itemWords.2 hitem, hitems⟩⟩

theorem mem_stringWords : word ∈ stringWords ↔
    ∃ ds, word = '\x22' :: (ds ++ ['\x22']) ∧ StringItems ds := by
  rw [stringWords, mem_oneOf_mul rfl]
  constructor
  · rintro ⟨_, rfl, hword⟩
    obtain ⟨ds, hds, _, ⟨c, rfl, hc⟩, rfl⟩ := Language.mem_mul.1 hword
    obtain rfl : c = '\x22' := List.mem_singleton.1 hc
    exact ⟨ds, rfl, mem_kstar_itemWords.1 hds⟩
  · rintro ⟨ds, rfl, hds⟩
    refine ⟨_, rfl, Language.append_mem_mul (mem_kstar_itemWords.2 hds) ?_⟩
    exact ⟨'\x22', rfl, List.mem_singleton.2 rfl⟩

end Words

theorem Keyword.mem_all (k : Keyword) : k ∈ Keyword.all := by
  cases k with
  | direction direction => cases direction <;> decide
  | net net => cases net <;> decide
  | sign sign => cases sign <;> decide
  | integerType type => cases type <;> decide
  | _ => decide

section Matches

variable {k : TokenKind} {word : List Char}

/-- A rule that is a pattern matches words of its kind. -/
theorem ruleWord_of_pattern {rule : Rule} (hrule : rule ∈ patternRules)
    (hword : word ∈ rule.language) : RuleWord rule.kind word := by
  simp only [patternRules, List.mem_cons, List.not_mem_nil, or_false] at hrule
  rcases hrule with rfl | rfl | rfl | rfl | rfl | rfl | rfl
  · obtain ⟨c, ds, rfl, hc, hds⟩ := mem_blankWords.1 hword
    exact .space hc hds
  · obtain ⟨ds, rfl, hds⟩ := mem_commentWords.1 hword
    exact .comment hds
  · obtain ⟨c, ds, rfl, hc, hds⟩ := mem_identifierWords.1 hword
    exact .identifier hc hds
  · obtain ⟨c, ds, rfl, hc, hds⟩ := mem_decimalWords.1 hword
    exact .integer hc hds
  · obtain ⟨tail, rfl, htail⟩ | ⟨c, ds, tail, rfl, hc, hds, htail⟩ := mem_basedWords.1 hword
    · exact .unsized htail
    · exact .sized hc hds htail
  · obtain ⟨ds, rfl, hds⟩ := mem_stringWords.1 hword
    exact .string hds
  · obtain ⟨d, ds, rfl, hd, hds⟩ := mem_directiveWords.1 hword
    exact .directive hd hds

theorem matches_of_pattern {l : Language Char} (hword : word ∈ l)
    (hrule : ⟨k, l⟩ ∈ patternRules) : Matches k word :=
  ⟨_, List.mem_append_left _ (List.mem_append_left _ hrule), rfl, hword⟩

theorem RuleWord.matches (h : RuleWord k word) : Matches k word := by
  cases h with
  | space hc hds =>
    exact matches_of_pattern (mem_blankWords.2 ⟨_, _, rfl, hc, hds⟩) (by simp [patternRules])
  | comment hds =>
    exact matches_of_pattern (mem_commentWords.2 ⟨_, rfl, hds⟩) (by simp [patternRules])
  | identifier hc hds =>
    exact matches_of_pattern (mem_identifierWords.2 ⟨_, _, rfl, hc, hds⟩) (by simp [patternRules])
  | integer hc hds =>
    exact matches_of_pattern (mem_decimalWords.2 ⟨_, _, rfl, hc, hds⟩) (by simp [patternRules])
  | sized hc hds htail =>
    have hword := mem_basedWords.2 (Or.inr ⟨_, _, _, rfl, hc, hds, htail⟩)
    exact matches_of_pattern hword (by simp [patternRules])
  | unsized htail =>
    have hword := mem_basedWords.2 (Or.inl ⟨_, rfl, htail⟩)
    exact matches_of_pattern hword (by simp [patternRules])
  | string hds =>
    exact matches_of_pattern (mem_stringWords.2 ⟨_, rfl, hds⟩) (by simp [patternRules])
  | directive hd hds =>
    exact matches_of_pattern (mem_directiveWords.2 ⟨_, _, rfl, hd, hds⟩) (by simp [patternRules])
  | mark hmark =>
    have hrule := List.mem_map_of_mem (f := fun mark => Rule.mk mark.1 {mark.2.toList}) hmark
    exact ⟨_, List.mem_append_left _ (List.mem_append_right _ hrule), rfl, rfl⟩
  | @keyword k word hword =>
    have hrule := List.mem_map_of_mem (f := fun k => Rule.mk (.keyword k) {word | Spells word k})
      (Keyword.mem_all k)
    exact ⟨_, List.mem_append_right _ hrule, rfl, hword⟩

/-- **The rules match these words.** -/
theorem matches_iff : Matches k word ↔ RuleWord k word := by
  refine ⟨?_, RuleWord.matches⟩
  rintro ⟨rule, hrule, rfl, hword⟩
  rcases List.mem_append.1 hrule with hrule | hrule
  · rcases List.mem_append.1 hrule with hrule | hrule
    · exact ruleWord_of_pattern hrule hword
    · obtain ⟨mark, hmark, rfl⟩ := List.mem_map.1 hrule
      obtain rfl : word = mark.2.toList := hword
      exact .mark hmark
  · obtain ⟨k, -, rfl⟩ := List.mem_map.1 hrule
    exact .keyword hword

end Matches

end HdlModule
