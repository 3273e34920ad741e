import HdlModule.Interface.ParameterList
import HdlModule.Proofs.Grammar.PortList
import HdlModule.Proofs.Lexing.Rules
import Mathlib.Data.List.TakeWhile
import Mathlib.Data.Nat.Digits.Defs

/-!
# The values of integer literals

Which texts are literals is said here without the order in which they are read: a literal is a
digit string, or an apostrophe with a base and a digit string of this base behind it, and with a
size in front that may be missing. The value is the positional value of the digits. A literal is
decoded if its value is one of 64 bits with a sign and fits into the size. So the arithmetic with
literals that follows, the minus of a parameter and the distance of two bounds, is done in 64 bits
as if it were done in integers. The width of a range is one more than the distance, which leaves 64
bits for the widest range only. No width is as great as that, so this range is refused in any case.

## Main definitions

* `IsDigitString base cs v`: the digits of a base, with underscores, and their value
* `BasedText body v`, `LiteralText cs size? v`: the forms of literals

## Main results

* `digitsValue_eq_ok_iff`: which digit strings have a value, and which one
* `literalValue_exact`: which texts are decoded, to which value, and which exceed their size
-/

namespace HdlModule

/-! ### Digits -/

/-- The character is the digit `d` of a base, in either case. -/
def IsDigitOf (base : Nat) (c : Char) (d : Nat) : Prop := d < base ∧ c.toLower = d.digitChar

/-- The text consists of digits of a base and underscores, with at least one digit, and the digits
have the positional value `v`. -/
def IsDigitString (base : Nat) (cs : List Char) (v : Nat) : Prop :=
  ∃ digits : List Nat, digits ≠ [] ∧
    List.Forall₂ (IsDigitOf base) (cs.filter (· ≠ '_')) digits ∧
    v = Nat.ofDigits base digits.reverse

section Digits

variable {base d v : Nat} {c : Char} {cs : List Char}

theorem toNat_digitChar (h : d < 16) :
    d.digitChar.toNat = if d < 10 then d + 48 else d + 87 := by
  have hall : ∀ d < 16, d.digitChar.toNat = if d < 10 then d + 48 else d + 87 := by decide
  exact hall d h

/-- A character is read as the digit that it is. -/
theorem digitValue?_eq_some_iff (hbase : base ≤ 16) :
    digitValue? base c = some d ↔ IsDigitOf base c d := by
  rw [digitValue?, Option.filter_eq_some_iff, IsDigitOf, and_comm, decide_eq_true_eq]
  refine and_congr_right fun hd => ?_
  rw [← Char.toNat_inj, toNat_digitChar (Nat.lt_of_lt_of_le hd hbase)]
  have hzero : '0'.toNat = 48 := rfl
  have hnine : '9'.toNat = 57 := rfl
  have ha : 'a'.toNat = 97 := rfl
  by_cases hdigit : c.isDigit = true
  · have hrange := Char.isDigit_iff_toNat.1 hdigit
    have hlower : c.toLower = c := toLower_of_not_isUpper fun h => by
      have hupper := isUpper_iff.1 h
      omega
    rw [if_pos hdigit, hlower, Option.some.injEq]
    split
    · omega
    · omega
  · rw [if_neg hdigit]
    have hrange := mt Char.isDigit_iff_toNat.2 hdigit
    have hlower : ¬ (48 ≤ c.toLower.toNat ∧ c.toLower.toNat ≤ 57) := by
      by_cases hupper : c.isUpper = true
      · have hletter := isUpper_iff.1 hupper
        rw [toNat_toLower hupper]
        omega
      · rw [toLower_of_not_isUpper hupper]
        omega
    have hle : 'a' ≤ c.toLower ∧ c.toLower ≤ 'f' ↔
        97 ≤ c.toLower.toNat ∧ c.toLower.toNat ≤ 102 := Iff.rfl
    simp only [hle, Option.ite_none_right_eq_some, Option.some.injEq]
    split
    · omega
    · omega

/-- A run of digits has its positional value, behind the value of the digits in front. -/
theorem positional?_eq_some_iff (hbase : base ≤ 16) {value : Nat} :
    positional? base value cs = some v ↔
      ∃ digits, List.Forall₂ (IsDigitOf base) cs digits ∧
        v = Nat.ofDigits base digits.reverse + base ^ digits.length * value := by
  induction cs generalizing value with
  | nil => simp [positional?, eq_comm]
  | cons c cs ih =>
    have hnext : ∀ d (digits : List Nat),
        Nat.ofDigits base digits.reverse + base ^ digits.length * (value * base + d) =
          Nat.ofDigits base (d :: digits).reverse + base ^ (d :: digits).length * value := by
      intro d digits
      rw [List.reverse_cons, Nat.ofDigits_append, Nat.ofDigits_singleton, List.length_reverse,
        List.length_cons, Nat.pow_succ]
      ring
    rw [positional?, Option.bind_eq_some_iff]
    simp only [digitValue?_eq_some_iff hbase, ih]
    constructor
    · rintro ⟨d, hd, digits, hdigits, rfl⟩
      exact ⟨d :: digits, .cons hd hdigits, hnext d digits⟩
    · rintro ⟨_, hall, rfl⟩
      obtain ⟨d, digits, hd, hdigits, rfl⟩ := List.forall₂_cons_left_iff.1 hall
      exact ⟨d, hd, digits, hdigits, (hnext d digits).symm⟩

/-- **A digit string is read as its value**, if this is below `2 ^ 63`. -/
theorem digitsValue_eq_ok_iff (hbase : base ≤ 16) :
    digitsValue base cs = .ok v ↔ IsDigitString base cs v ∧ v < 2 ^ 63 := by
  unfold digitsValue IsDigitString
  split
  · next hnil =>
    simp only [reduceCtorEq, hnil, List.forall₂_nil_left_iff, false_iff]
    rintro ⟨⟨digits, hne, hdigits, -⟩, -⟩
    exact hne hdigits
  · next hcons =>
    have hiff : positional? base 0 (cs.filter (· ≠ '_')) = some v ↔ IsDigitString base cs v := by
      rw [positional?_eq_some_iff hbase, IsDigitString]
      refine exists_congr fun digits => ?_
      rw [Nat.mul_zero, Nat.add_zero]
      refine ⟨fun h => ⟨?_, h⟩, fun h => h.2⟩
      rintro rfl
      exact hcons (List.forall₂_nil_right_iff.1 h.1)
    change _ ↔ IsDigitString base cs v ∧ _
    rw [← hiff]
    cases positional? base 0 (cs.filter (· ≠ '_')) with
    | none => simp
    | some value =>
      simp only [Option.some.injEq]
      split
      · next hlt =>
        simp only [Except.ok.injEq]
        exact ⟨fun h => ⟨h, h ▸ hlt⟩, And.left⟩
      · next hlt =>
        simp only [reduceCtorEq, false_iff, not_and]
        rintro rfl
        exact hlt

theorem digitsValue_ne_exceedsSize {n : Nat} : digitsValue base cs ≠ .error (.exceedsSize n) := by
  unfold digitsValue
  split
  · simp
  · split
    · simp
    · split <;> simp

/-- What holds of digits and underscores holds of all characters of a digit string. -/
theorem IsDigitString.forall_mem {p : Char → Prop} (h : IsDigitString base cs v) (hbase : base ≤ 16)
    (hlow : p '_') (hdigit : ∀ c, ∀ d < 16, c.toLower = d.digitChar → p c) : ∀ c ∈ cs, p c := by
  obtain ⟨digits, -, hdigits, -⟩ := h
  have hboth : List.Forall₂ (fun c d => p c ∧ IsDigitOf base c d) (cs.filter (· ≠ '_')) digits :=
    hdigits.imp fun c d hd => ⟨hdigit c d (Nat.lt_of_lt_of_le hd.1 hbase) hd.2, hd⟩
  have hfiltered := ((List.forall₂_and_left _ _).1 hboth).1
  intro c hc
  by_cases hcase : c = '_'
  · exact hcase ▸ hlow
  · exact hfiltered c (List.mem_filter.2 ⟨hc, decide_eq_true hcase⟩)

theorem IsDigitString.quote_not_mem (h : IsDigitString base cs v) (hbase : base ≤ 16) :
    '\x27' ∉ cs := by
  have hdigits : ∀ d < 16, '\x27'.toLower ≠ d.digitChar := by decide
  have hall : ∀ c ∈ cs, c ≠ '\x27' := h.forall_mem hbase (by decide) fun c d hd hc => by
    rintro rfl
    exact hdigits d hd hc
  exact fun hmem => hall _ hmem rfl

theorem IsDigitString.any_isUnknownBit (h : IsDigitString base cs v) (hbase : base ≤ 16) :
    cs.any isUnknownBit = false := by
  have hdigits : ∀ d < 16, d.digitChar ≠ 'x' ∧ d.digitChar ≠ 'z' ∧ d.digitChar ≠ '?'.toLower := by
    decide
  rw [List.any_eq_false]
  refine h.forall_mem hbase (by decide) fun c d hd hc => ?_
  obtain ⟨hx, hz, hquestion⟩ := hdigits d hd
  have hne : c ≠ '?' := by
    rintro rfl
    exact hquestion hc.symm
  simp [isUnknownBit, hc, hx, hz, hne]

end Digits

/-! ### The forms of literals -/

/-- The letter, in either case, stands for the base. -/
def IsBaseFor (letter : Char) (base : Nat) : Prop :=
  (letter.toLower, base) ∈ [('b', 2), ('o', 8), ('d', 10), ('h', 16)]

/-- What stands behind the apostrophe of a literal: a letter for the sign that may be missing, a
letter for the base, and a digit string of this base. -/
inductive BasedText : List Char → Nat → Prop
  | mk {sign digits : List Char} {letter : Char} {base v : Nat}
      (hsign : sign = [] ∨ sign = ['s'] ∨ sign = ['S']) (hletter : IsBaseFor letter base)
      (hdigits : IsDigitString base digits v) : BasedText (sign ++ letter :: digits) v

/-- The text is written as a literal, with a size or without one, and its digits have the value. -/
inductive LiteralText : List Char → Option Nat → Nat → Prop
  | decimal {cs : List Char} {v : Nat} (hdigits : IsDigitString 10 cs v) : LiteralText cs none v
  | unsized {body : List Char} {v : Nat} (hbody : BasedText body v) :
      LiteralText ('\x27' :: body) none v
  | sized {size body : List Char} {n v : Nat} (hsize : IsDigitString 10 size n)
      (hbody : BasedText body v) : LiteralText (size ++ '\x27' :: body) (some n) v

section Literals

variable {cs size body : List Char} {size? : Option Nat} {n v : Nat}

theorem base?_eq_some_iff {letter : Char} {base : Nat} :
    base? letter = some base ↔ IsBaseFor letter base := by
  unfold base? IsBaseFor
  split
  · next h => simp [h, eq_comm]
  · next h => simp [h, eq_comm]
  · next h => simp [h, eq_comm]
  · next h => simp [h, eq_comm]
  · next hb ho hd hh =>
    simp only [reduceCtorEq, List.mem_cons, Prod.mk.injEq, List.not_mem_nil, or_false, false_iff]
    rintro (⟨h, -⟩ | ⟨h, -⟩ | ⟨h, -⟩ | ⟨h, -⟩)
    · exact hb h
    · exact ho h
    · exact hd h
    · exact hh h

theorem IsBaseFor.le {letter : Char} {base : Nat} (h : IsBaseFor letter base) : base ≤ 16 := by
  have hall : ∀ entry ∈ [('b', 2), ('o', 8), ('d', 10), ('h', 16)], entry.2 ≤ 16 := by decide
  exact hall _ h

/-- The value of a letter for a base and digits of this base. -/
def lettered : List Char → Except LiteralFault Nat
  | [] => .error .notAnInteger
  | letter :: digits =>
    match base? letter with
    | none => .error .notAnInteger
    | some base => if digits.any isUnknownBit then .error .unknownBits else digitsValue base digits

theorem basedValue_of_sign {c : Char} (hc : c.toLower = 's') :
    basedValue (c :: body) = lettered body := by
  simp only [basedValue, if_pos hc]
  rfl

theorem basedValue_of_no_sign (hbody : ∀ c ∈ body.head?, c.toLower ≠ 's') :
    basedValue body = lettered body := by
  cases body with
  | nil => rfl
  | cons c body =>
    simp only [basedValue, if_neg (hbody c rfl)]
    rfl

theorem lettered_eq_ok_iff :
    lettered body = .ok v ↔ ∃ letter base digits, body = letter :: digits ∧
      IsBaseFor letter base ∧ IsDigitString base digits v ∧ v < 2 ^ 63 := by
  unfold lettered
  split
  · simp
  · next letter digits =>
    simp only [List.cons.injEq, ← base?_eq_some_iff]
    cases hbase : base? letter with
    | none =>
      simp only [reduceCtorEq, false_iff, not_exists]
      rintro _ base _ ⟨⟨rfl, -⟩, hletter, -⟩
      rw [hbase] at hletter
      cases hletter
    | some base =>
      have hle : base ≤ 16 := (base?_eq_some_iff.1 hbase).le
      simp only
      constructor
      · intro h
        split at h
        · cases h
        · obtain ⟨hdigits, hv⟩ := (digitsValue_eq_ok_iff hle).1 h
          exact ⟨letter, base, digits, ⟨rfl, rfl⟩, hbase, hdigits, hv⟩
      · rintro ⟨_, base', _, ⟨rfl, rfl⟩, hletter, hdigits, hv⟩
        obtain rfl : base = base' := Option.some.inj (hbase.symm.trans hletter)
        rw [if_neg (by simp [hdigits.any_isUnknownBit hle])]
        exact (digitsValue_eq_ok_iff hle).2 ⟨hdigits, hv⟩

theorem lettered_ne_exceedsSize : lettered body ≠ .error (.exceedsSize n) := by
  unfold lettered
  split
  · simp
  · split
    · simp
    · split
      · simp
      · exact digitsValue_ne_exceedsSize

/-- A letter for the sign stands in front, and is passed over, or none does. -/
theorem basedValue_cases (body : List Char) :
    (∃ sign rest, body = sign :: rest ∧ (sign = 's' ∨ sign = 'S') ∧
      basedValue body = lettered rest) ∨ basedValue body = lettered body := by
  cases body with
  | nil => exact Or.inr rfl
  | cons c rest =>
    by_cases hc : c.toLower = 's'
    · exact Or.inl ⟨c, rest, rfl, (toLower_eq_iff c 's' 'S' rfl rfl).1 hc, basedValue_of_sign hc⟩
    · exact Or.inr (basedValue_of_no_sign (by simpa using hc))

/-- What stands behind an apostrophe is read as the value of its digits. -/
theorem basedValue_eq_ok_iff : basedValue body = .ok v ↔ BasedText body v ∧ v < 2 ^ 63 := by
  constructor
  · intro h
    rcases basedValue_cases body with ⟨sign, rest, rfl, hsign, heq⟩ | heq
    · rw [heq, lettered_eq_ok_iff] at h
      obtain ⟨letter, base, digits, rfl, hletter, hdigits, hv⟩ := h
      have hsign : [sign] = [] ∨ [sign] = ['s'] ∨ [sign] = ['S'] := by simpa using hsign
      exact ⟨BasedText.mk hsign hletter hdigits, hv⟩
    · rw [heq, lettered_eq_ok_iff] at h
      obtain ⟨letter, base, digits, rfl, hletter, hdigits, hv⟩ := h
      exact ⟨BasedText.mk (Or.inl rfl) hletter hdigits, hv⟩
  · rintro ⟨⟨hsign, hletter, hdigits⟩, hv⟩
    have hread := lettered_eq_ok_iff.2 ⟨_, _, _, rfl, hletter, hdigits, hv⟩
    rcases hsign with rfl | rfl | rfl
    · refine (basedValue_of_no_sign fun c hc => ?_).trans hread
      obtain rfl := Option.some.inj hc
      intro hs
      rw [IsBaseFor, hs] at hletter
      simp at hletter
    · exact (basedValue_of_sign rfl).trans hread
    · exact (basedValue_of_sign rfl).trans hread

theorem basedValue_ne_exceedsSize : basedValue body ≠ .error (.exceedsSize n) := by
  rcases basedValue_cases body with ⟨sign, rest, -, -, heq⟩ | heq
  · exact heq ▸ lettered_ne_exceedsSize
  · exact heq ▸ lettered_ne_exceedsSize

/-- A size is read as its value, if this is below `2 ^ 32`. -/
theorem sizeValue_eq_ok_iff (hsize : size ≠ []) :
    sizeValue size = .ok size? ↔ ∃ n, IsDigitString 10 size n ∧ n < 2 ^ 32 ∧ size? = some n := by
  rw [sizeValue, if_neg hsize, bind_eq_ok]
  refine exists_congr fun n => ?_
  rw [digitsValue_eq_ok_iff (by decide), and_assoc]
  refine and_congr_right fun _ => ?_
  have hbound : UInt32.size = 2 ^ 32 := rfl
  rw [hbound]
  split
  · next hlt =>
    rw [Except.ok.injEq]
    exact ⟨fun h => ⟨hlt, h.2.symm⟩, fun h => ⟨by omega, h.2.symm⟩⟩
  · next hlt =>
    constructor
    · rintro ⟨-, h⟩
      cases h
    · rintro ⟨h, -⟩
      exact absurd h hlt

theorem sizeValue_ne_exceedsSize : sizeValue size ≠ .error (.exceedsSize n) := by
  unfold sizeValue
  split
  · simp
  · cases h : digitsValue 10 size with
    | error fault =>
      intro he
      obtain rfl : fault = .exceedsSize n := Except.error.inj he
      exact digitsValue_ne_exceedsSize h
    | ok value =>
      show (if value < UInt32.size then Except.ok (some value) else _) ≠ _
      split <;> simp

/-- A value with a size fits if it is below two to the power of the size. -/
theorem fitted_some (hv : v < 2 ^ 63) :
    fitted (some n) v = if v < 2 ^ n then .ok v else .error (.exceedsSize n) := by
  have hshift : v >>> n ≠ 0 ↔ 2 ^ n ≤ v := by
    rw [Nat.shiftRight_eq_div_pow, Nat.ne_zero_iff_zero_lt, Nat.div_pos_iff]
    exact and_iff_right (Nat.two_pow_pos n)
  have hlarge : 2 ^ n ≤ v → n < 64 := by
    intro h
    have hlt : 2 ^ n < 2 ^ 63 := Nat.lt_of_le_of_lt h hv
    have hn := (Nat.pow_lt_pow_iff_right (by decide)).1 hlt
    omega
  simp only [fitted, hshift]
  by_cases h : v < 2 ^ n
  · rw [if_pos h, if_neg (fun hn => absurd hn.2 (Nat.not_le.2 h))]
  · rw [if_neg h, if_pos ⟨hlarge (Nat.not_lt.1 h), Nat.not_lt.1 h⟩]

theorem fitted_eq_ok_iff (hv : v < 2 ^ 63) {w : Nat} :
    fitted size? v = .ok w ↔ v = w ∧ ∀ n ∈ size?, v < 2 ^ n := by
  cases size? with
  | none => simp [fitted]
  | some n =>
    rw [fitted_some hv]
    by_cases h : v < 2 ^ n <;> simp [h]

theorem fitted_eq_error_iff (hv : v < 2 ^ 63) {fault : LiteralFault} :
    fitted size? v = .error fault ↔ ∃ n, size? = some n ∧ fault = .exceedsSize n ∧ ¬ v < 2 ^ n := by
  cases size? with
  | none => simp [fitted]
  | some n =>
    rw [fitted_some hv]
    by_cases h : v < 2 ^ n
    · simp [h]
    · simp [h, Nat.not_lt.1 h, eq_comm]

/-! ### Texts with and without an apostrophe -/

theorem literalValue_of_quote_not_mem (h : '\x27' ∉ cs) : literalValue cs = digitsValue 10 cs := by
  have hdrop : cs.dropWhile (· ≠ '\x27') = [] := by
    rw [List.dropWhile_eq_nil_iff]
    exact fun c hc => decide_eq_true fun he => h (he ▸ hc)
  rw [literalValue, hdrop]

theorem literalValue_append_quote (h : '\x27' ∉ size) (body : List Char) :
    literalValue (size ++ '\x27' :: body) = (do
      let size? ← sizeValue size
      let value ← basedValue body
      fitted size? value) := by
  have hsize : ∀ c ∈ size, decide (c ≠ '\x27') = true :=
    fun c hc => decide_eq_true fun he => h (he ▸ hc)
  rw [literalValue, List.dropWhile_append_of_pos hsize, List.takeWhile_append_of_pos hsize]
  simp

/-- A text that is written as a literal has the value of its digits, unless that does not fit. -/
theorem LiteralText.literalValue_eq (h : LiteralText cs size? v) (hv : v < 2 ^ 63)
    (hsize : ∀ n ∈ size?, n < 2 ^ 32) : literalValue cs = fitted size? v := by
  cases h with
  | decimal hdigits =>
    rw [literalValue_of_quote_not_mem (hdigits.quote_not_mem (by decide)),
      (digitsValue_eq_ok_iff (by decide)).2 ⟨hdigits, hv⟩]
    rfl
  | unsized hbody =>
    refine (literalValue_append_quote List.not_mem_nil _).trans ?_
    rw [basedValue_eq_ok_iff.2 ⟨hbody, hv⟩]
    rfl
  | @sized size body n v hdigits hbody =>
    have hne : size ≠ [] := by
      rintro rfl
      obtain ⟨digits, hdigitsNe, hnil, -⟩ := hdigits
      exact hdigitsNe (List.forall₂_nil_left_iff.1 hnil)
    have hread := (sizeValue_eq_ok_iff hne).2 ⟨n, hdigits, hsize n rfl, rfl⟩
    rw [literalValue_append_quote (hdigits.quote_not_mem (by decide)), hread,
      basedValue_eq_ok_iff.2 ⟨hbody, hv⟩]
    rfl

/-- A text is written as a literal with a value of 64 bits and a size of 32 bits, or it is refused
for another reason than that the value exceeds the size. -/
theorem literalText_or_error (cs : List Char) :
    (∃ size? v, LiteralText cs size? v ∧ v < 2 ^ 63 ∧ ∀ n ∈ size?, n < 2 ^ 32) ∨
      ∃ fault, literalValue cs = .error fault ∧ ∀ n, fault ≠ .exceedsSize n := by
  by_cases hquote : '\x27' ∈ cs
  · obtain ⟨size, body, rfl, hfirst⟩ := List.eq_append_cons_of_mem hquote
    rw [literalValue_append_quote hfirst]
    cases hsize : sizeValue size with
    | error fault =>
      refine Or.inr ⟨fault, rfl, ?_⟩
      rintro n rfl
      exact sizeValue_ne_exceedsSize hsize
    | ok size? =>
      cases hbody : basedValue body with
      | error fault =>
        refine Or.inr ⟨fault, rfl, ?_⟩
        rintro n rfl
        exact basedValue_ne_exceedsSize hbody
      | ok v =>
        left
        obtain ⟨hbody, hv⟩ := basedValue_eq_ok_iff.1 hbody
        by_cases hempty : size = []
        · subst hempty
          exact ⟨none, v, .unsized hbody, hv, by simp⟩
        · obtain ⟨n, hdigits, hn, -⟩ := (sizeValue_eq_ok_iff hempty).1 hsize
          exact ⟨some n, v, .sized hdigits hbody, hv, by simpa using hn⟩
  · rw [literalValue_of_quote_not_mem hquote]
    cases hdigits : digitsValue 10 cs with
    | error fault =>
      refine Or.inr ⟨fault, rfl, ?_⟩
      rintro n rfl
      exact digitsValue_ne_exceedsSize hdigits
    | ok v =>
      obtain ⟨hdigits, hv⟩ := (digitsValue_eq_ok_iff (by decide)).1 hdigits
      exact Or.inl ⟨none, v, .decimal hdigits, hv, by simp⟩

/-- **A text is decoded** if it is written as a literal whose value has 64 bits with a sign and
fits into the size. -/
theorem literalValue_eq_ok_iff :
    literalValue cs = .ok v ↔
      ∃ size?, LiteralText cs size? v ∧ v < 2 ^ 63 ∧ ∀ n ∈ size?, n < 2 ^ 32 ∧ v < 2 ^ n := by
  constructor
  · intro h
    rcases literalText_or_error cs with ⟨size?, w, htext, hw, hsize⟩ | ⟨fault, hfault, -⟩
    · rw [htext.literalValue_eq hw hsize, fitted_eq_ok_iff hw] at h
      obtain ⟨rfl, hfits⟩ := h
      exact ⟨size?, htext, hw, fun n hn => ⟨hsize n hn, hfits n hn⟩⟩
    · rw [hfault] at h
      cases h
  · rintro ⟨size?, htext, hv, hsize⟩
    rw [htext.literalValue_eq hv fun n hn => (hsize n hn).1, fitted_eq_ok_iff hv]
    exact ⟨rfl, fun n hn => (hsize n hn).2⟩

/-- **A value exceeds its size** where everything but the size is as it is for a text that is
decoded. -/
theorem literalValue_eq_exceedsSize_iff :
    literalValue cs = .error (.exceedsSize n) ↔
      ∃ v, LiteralText cs (some n) v ∧ v < 2 ^ 63 ∧ n < 2 ^ 32 ∧ ¬ v < 2 ^ n := by
  constructor
  · intro h
    rcases literalText_or_error cs with ⟨size?, v, htext, hv, hsize⟩ | ⟨fault, hfault, hne⟩
    · rw [htext.literalValue_eq hv hsize, fitted_eq_error_iff hv] at h
      obtain ⟨m, rfl, hm, hexceeds⟩ := h
      obtain rfl := LiteralFault.exceedsSize.inj hm
      exact ⟨v, htext, hv, hsize n rfl, hexceeds⟩
    · rw [hfault] at h
      exact absurd (Except.error.inj h) (hne n)
  · rintro ⟨v, htext, hv, hn, hexceeds⟩
    rw [htext.literalValue_eq hv (by simpa using hn), fitted_eq_error_iff hv]
    exact ⟨n, rfl, rfl, hexceeds⟩

end Literals

/-! ### Arithmetic with values -/

section Arithmetic

variable {v high low : Nat}

/-- The minus in front of a value does not leave the 64 bits. -/
theorem toInt_signedValue (sign? : Option Token) (hv : v < 2 ^ 63) :
    (signedValue sign? v).toInt =
      if sign?.map (·.kind) = some .minus then -(v : Int) else (v : Int) := by
  unfold signedValue
  split
  · exact Int64.toInt_neg_ofNat_of_le (Nat.le_of_lt hv)
  · exact Int64.toInt_ofNat_of_lt hv

/-- The difference of two values does not leave the 64 bits. -/
theorem toInt_sub_of_le (hhigh : high < 2 ^ 63) (hle : low ≤ high) :
    (Int64.ofNat high - Int64.ofNat low).toInt = (high : Int) - low := by
  rw [Int64.toInt_sub, Int64.toInt_ofNat_of_lt hhigh,
    Int64.toInt_ofNat_of_lt (Nat.lt_of_le_of_lt hle hhigh)]
  exact Int.bmod_eq_of_le (by omega) (by omega)

/-- A range has the width that is computed in 64 bits. One sum leaves the 64 bits, for the range
from `2 ^ 63 - 1` to zero, which is too wide in either arithmetic. -/
theorem rangeWidth_eq_ok_iff_toInt (hhigh : high < 2 ^ 63) (hle : low ≤ high)
    (opener closer : Token) (width : Width) :
    rangeWidth opener closer high low = .ok width ↔
      (Int64.ofNat high - Int64.ofNat low + 1).toInt = width.bits := by
  rw [rangeWidth_eq_ok_iff, and_iff_right hle, Int64.toInt_add, toInt_sub_of_le hhigh hle,
    Int64.toInt_one]
  have hbits := width.bits_lt
  have hpos := width.bits_pos
  unfold UInt32.size at hbits
  by_cases hsum : high - low + 1 < 2 ^ 63
  · rw [Int.bmod_eq_of_le (by omega) (by omega)]
    omega
  · have hwrap : (high : Int) - low + 1 = 2 ^ 63 := by omega
    have hmin : ((2 : Int) ^ 63).bmod (2 ^ 64) = -2 ^ 63 := by decide
    rw [hwrap, hmin]
    omega

end Arithmetic

/-- **Integer literals are decoded exactly.** A text is decoded if and only if it is written as a
literal whose value is below `2 ^ 63` and below two to the power of its size, where it has one;
the result is the value of its digits. Its value exceeds the size exactly if nothing else is wrong
with it. So no value is negative or has more than 63 bits, and its negative and its distance to the
low bound of a range are in 64 bits what they are in integers. A range has a width exactly if the
distance and one more, in 64 bits, is a width. For `[2 ^ 63 - 1 : 0]` alone this sum leaves 64 bits;
it is negative then, and the range has no width, as in integers. -/
theorem literalValue_exact (cs : List Char) :
    (∀ v, literalValue cs = .ok v ↔
      ∃ size?, LiteralText cs size? v ∧ v < 2 ^ 63 ∧ ∀ n ∈ size?, n < 2 ^ 32 ∧ v < 2 ^ n) ∧
    (∀ n, literalValue cs = .error (.exceedsSize n) ↔
      ∃ v, LiteralText cs (some n) v ∧ v < 2 ^ 63 ∧ n < 2 ^ 32 ∧ ¬ v < 2 ^ n) ∧
    ∀ high, literalValue cs = .ok high →
      high ≤ 2 ^ 63 - 1 ∧
      (∀ sign?, (signedValue sign? high).toInt =
        if sign?.map (·.kind) = some .minus then -(high : Int) else (high : Int)) ∧
      ∀ ds low, literalValue ds = .ok low → low ≤ high →
        (Int64.ofNat high - Int64.ofNat low).toInt = (high : Int) - low ∧
        ∀ opener closer width, rangeWidth opener closer high low = .ok width ↔
          (Int64.ofNat high - Int64.ofNat low + 1).toInt = width.bits := by
  refine ⟨fun v => literalValue_eq_ok_iff, fun n => literalValue_eq_exceedsSize_iff, ?_⟩
  intro high hvalue
  obtain ⟨-, -, hhigh, -⟩ := literalValue_eq_ok_iff.1 hvalue
  refine ⟨Nat.le_sub_one_of_lt hhigh, fun sign? => toInt_signedValue sign? hhigh, ?_⟩
  intro ds low _ hle
  exact ⟨toInt_sub_of_le hhigh hle, rangeWidth_eq_ok_iff_toInt hhigh hle⟩

/-- The greatest value, with a size, a sign letter, both cases and underscores; a value of four
bits in a size of three; and the range whose width leaves 64 bits. -/
theorem literalValue_exact_greatest :
    let greatest := "64'Sh7FFF_ffff_FFFF_ffff".toList
    let high := 2 ^ 63 - 1
    let minus : Token := ⟨⟨.minus, ['-']⟩, 0⟩
    let opener : Token := ⟨⟨.leftBracket, ['[']⟩, 0⟩
    let closer : Token := ⟨⟨.rightBracket, [']']⟩, 22⟩
    literalValue greatest = .ok high ∧
      (∃ v, LiteralText "3'd0_8".toList (some 3) v ∧ ¬ v < 2 ^ 3) ∧
      literalValue "0".toList = .ok 0 ∧
      (signedValue (some minus) high).toInt = -(2 ^ 63 - 1) ∧
      (Int64.ofNat high - Int64.ofNat 0).toInt = 2 ^ 63 - 1 ∧
      ¬ ∃ width, rangeWidth opener closer high 0 = .ok width := by
  intro greatest high minus opener closer
  have hhigh : literalValue greatest = .ok high := by decide +kernel
  have hlow : literalValue "0".toList = .ok 0 := by decide +kernel
  obtain ⟨-, -, hvalues⟩ := literalValue_exact greatest
  obtain ⟨-, hsign, hrange⟩ := hvalues high hhigh
  obtain ⟨hdifference, hwidth⟩ := hrange _ 0 hlow (Nat.zero_le _)
  have hexceeds : literalValue "3'd0_8".toList = .error (.exceedsSize 3) := by decide +kernel
  obtain ⟨v, htext, -, -, hv⟩ := ((literalValue_exact "3'd0_8".toList).2.1 3).1 hexceeds
  refine ⟨hhigh, ⟨v, htext, hv⟩, hlow, hsign (some minus), hdifference, ?_⟩
  rintro ⟨width, hok⟩
  -- the sum wraps to the least number of 64 bits
  have hbits := (hwidth opener closer width).1 hok
  have hwraps : (Int64.ofNat high - Int64.ofNat 0 + 1).toInt = -2 ^ 63 := by decide +kernel
  omega

end HdlModule
