import HdlModule.Literal
import HdlModule.Proofs.Lexing.LongestMatch
import HdlModule.Proofs.Lexing.Names
import Mathlib.Data.List.TakeWhile

/-!
# Lexemes of written pieces

A text that is put together from pieces falls into the lexemes of the pieces, where no piece goes
on with the text behind it. The pieces here are keywords, blanks, comments, punctuation and the
decimal digits of numbers. The digits of a number are read back as that number.

## Main results

* `lexemes_keyword_append`, `lexemes_blank_cons`, `lexemes_punctuation_cons`,
  `lexemes_toDigits_append`: a piece is one lexeme
* `literalValue_toDigits_eq`: the value of the digits of a number
-/

namespace HdlModule

/-! ### Keywords, blanks, comments and punctuation -/

section Pieces

variable {rest : List Char}

/-- A word does not start with a blank. -/
theorem SpellsWord.stops_isSpace {word : List Char} (h : SpellsWord word) :
    Stops isSpace (word ++ rest) := by
  obtain ⟨c, ds, rfl, hc, -⟩ := h
  exact stops_cons.2 (isSpace_of_isWordStart hc)

theorem Keyword.spells_text (k : Keyword) : Spells k.text.toList k := by
  have hlower : ∀ k ∈ Keyword.all, k.text.toList.map Char.toLower = k.text.toList := by
    decide +kernel
  exact hlower k k.mem_all

theorem Keyword.spellsWord_text (k : Keyword) : SpellsWord k.text.toList :=
  k.spells_text.exists_cons

theorem lexemes_keyword_append (k : Keyword) (hrest : Stops isWordPart rest) :
    lexemes (k.text.toList ++ rest) = ⟨.keyword k, k.text.toList⟩ :: lexemes rest := by
  rw [k.spellsWord_text.lexemes_append hrest, k.spells_text.wordKind_eq]

/-- Blanks are one lexeme. -/
theorem lexemes_blanks_append {b : Char} {blanks : List Char} (hb : isSpace b = true)
    (hblanks : ∀ x ∈ blanks, isSpace x = true) (hrest : Stops isSpace rest) :
    lexemes (b :: (blanks ++ rest)) = ⟨.whitespace, b :: blanks⟩ :: lexemes rest :=
  lexemes_cons_of_leads (.space hb hblanks hrest)

theorem lexemes_blank_cons (hrest : Stops isSpace rest) :
    lexemes (' ' :: rest) = ⟨.whitespace, [' ']⟩ :: lexemes rest :=
  lexemes_blanks_append rfl (List.forall_mem_nil _) hrest

/-- A comment is one lexeme up to the end of its line. -/
theorem lexemes_comment_append {body : List Char} (hbody : ∀ d ∈ body, (!isLineEnd d) = true)
    (hrest : Stops (!isLineEnd ·) rest) :
    lexemes ('/' :: '/' :: (body ++ rest)) =
      ⟨.lineComment, '/' :: '/' :: body⟩ :: lexemes rest :=
  lexemes_cons_of_leads (.comment hbody hrest)

theorem lexemes_colon_cons (hrest : ∀ c ∈ rest.head?, c ≠ ':') :
    lexemes (':' :: rest) = ⟨.colon, [':']⟩ :: lexemes rest :=
  lexemes_cons_of_leads (.colon hrest)

theorem standsAlone_of_punctuation {c : Char} (h : punctuation c ≠ .invalid) : StandsAlone c := by
  unfold punctuation at h
  split at h
  all_goals first
    | exact ⟨rfl, rfl, rfl, by decide⟩
    | exact absurd rfl h

/-- A punctuation character that has a kind is a lexeme, whatever follows. -/
theorem lexemes_punctuation_cons {c : Char} (h : punctuation c ≠ .invalid) :
    lexemes (c :: rest) = ⟨punctuation c, [c]⟩ :: lexemes rest :=
  lexemes_cons_of_leads (.alone (standsAlone_of_punctuation h))

end Pieces

/-! ### Numbers -/

theorem digitValue?_of_isDigit {c : Char} (h : c.isDigit = true) :
    digitValue? 10 c = some (c.toNat - '0'.toNat) := by
  have hlt : c.toNat - '0'.toNat < 10 := by
    have hle : c.toNat ≤ '9'.toNat := (Char.isDigit_iff_toNat.1 h).2
    have hnine : '9'.toNat - '0'.toNat < 10 := by decide
    omega
  rw [digitValue?, if_pos h]
  exact Option.filter_eq_some_iff.2 ⟨rfl, decide_eq_true hlt⟩

/-- A run of digits has its positional value. -/
theorem positional?_of_isDigit {cs : List Char} (h : ∀ c ∈ cs, c.isDigit = true) (value : Nat) :
    positional? 10 value cs = some (Nat.ofDigitChars 10 cs value) := by
  induction cs generalizing value with
  | nil => rfl
  | cons c cs ih =>
    obtain ⟨hc, hcs⟩ := List.forall_mem_cons.1 h
    rw [positional?, digitValue?_of_isDigit hc, Option.bind_some, ih hcs, Nat.ofDigitChars_cons,
      Nat.mul_comm]

theorem forall_isDigit_toDigits (n : Nat) : ∀ c ∈ Nat.toDigits 10 n, c.isDigit = true :=
  fun _ => Nat.isDigit_of_mem_toDigits (by decide) (by decide)

/-- A number is written with one digit at least. -/
theorem exists_toDigits_eq_cons (n : Nat) :
    ∃ c ds, Nat.toDigits 10 n = c :: ds ∧ c.isDigit = true ∧ ∀ d ∈ ds, d.isDigit = true := by
  obtain ⟨c, ds, hcons⟩ := List.exists_cons_of_ne_nil (Nat.toDigits_ne_nil (n := n) (b := 10))
  have hdigits := forall_isDigit_toDigits n
  rw [hcons] at hdigits
  exact ⟨c, ds, hcons, List.forall_mem_cons.1 hdigits⟩

/-- A negative number is written with a minus in front. -/
theorem toList_toString (value : Int) :
    (toString value).toList =
      (if value < 0 then ['-'] else []) ++ Nat.toDigits 10 value.natAbs := by
  cases value with
  | ofNat n => exact Nat.toList_repr
  | negSucc n =>
    show ("-" ++ (n + 1).repr).toList = _
    rw [String.toList_append, Nat.toList_repr, if_pos (Int.negSucc_lt_zero n)]
    rfl

theorem isDecimalPart_of_isDigit {c : Char} (h : c.isDigit = true) : isDecimalPart c = true := by
  simp [isDecimalPart, h]

/-- **The digits of a number are one lexeme**, where neither a digit nor an apostrophe follows. -/
theorem lexemes_toDigits_append (n : Nat) {rest : List Char} (hrest : Stops isDecimalPart rest)
    (hquote : ∀ c ∈ rest.head?, c ≠ '\x27') :
    lexemes (Nat.toDigits 10 n ++ rest) = ⟨.integer, Nat.toDigits 10 n⟩ :: lexemes rest := by
  obtain ⟨c, ds, hcons, hc, hds⟩ := exists_toDigits_eq_cons n
  have hleads : Leads c ds rest .integer := by
    refine .integer hc (fun d hd => isDecimalPart_of_isDigit (hds d hd)) hrest ?_
    rintro tail rfl
    exact absurd rfl (hquote '\x27' rfl)
  rw [hcons]
  exact lexemes_cons_of_leads hleads

/-- **The value of the digits of a number** is the number, if it is small enough for a value. -/
theorem literalValue_toDigits_eq (n : Nat) :
    literalValue (Nat.toDigits 10 n) =
      if n < 0x8000000000000000 then .ok n else .error .overflow := by
  have hother : ∀ c ∈ Nat.toDigits 10 n, ∀ d, d.isDigit = false → decide (c ≠ d) = true := by
    intro c hc d hd
    refine decide_eq_true ?_
    rintro rfl
    rw [forall_isDigit_toDigits n c hc] at hd
    cases hd
  have hsize : (Nat.toDigits 10 n).dropWhile (· ≠ '\x27') = [] :=
    List.dropWhile_eq_nil_iff.2 fun c hc => hother c hc _ rfl
  have hdigits : (Nat.toDigits 10 n).filter (· ≠ '_') = Nat.toDigits 10 n :=
    List.filter_eq_self.2 fun c hc => hother c hc _ rfl
  have hvalue : positional? 10 0 (Nat.toDigits 10 n) = some n := by
    rw [positional?_of_isDigit (forall_isDigit_toDigits n), Nat.ofDigitChars_ten_toDigits]
  rw [literalValue, hsize]
  simp only [digitsValue, hdigits]
  split
  · next hnil => exact absurd hnil Nat.toDigits_ne_nil
  · rw [hvalue]

theorem literalValue_toDigits {n : Nat} (hn : n < 0x8000000000000000) :
    literalValue (Nat.toDigits 10 n) = .ok n :=
  (literalValue_toDigits_eq n).trans (if_pos hn)

end HdlModule
