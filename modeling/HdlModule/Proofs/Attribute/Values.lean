import HdlModule.Attribute.Basic
import HdlModule.Proofs.Literal
import HdlModule.Proofs.Lexing.Written

/-!
# Values of attributes

What a text stands for is said here without the order in which an attribute looks at it: the words
for the default, the numerals of 32 bits, the numerals of 64 bits that are too small or too large,
and all other texts exclude each other. The value of a text is the one of its kind. What is shown
for a value is a text of the right kind, so it is read back as that value.

## Main definitions

* `TrimmedTo cs x`: `x` is the text without the blanks around it
* `IsDecimal cs n`, `Numeral cs n`: digits, and numerals with a sign that may be missing
* `Attribute.Reads a x result`: what a text without blanks around it stands for

## Main results

* `TrimmedTo.trimBlank_eq`, `signedDecimalValue?_eq_some_iff`: what trimming and decoding give
* `parse_exact`: what any text stands for, and that values are read back
-/

namespace HdlModule

/-! ### Blanks around a text -/

/-- The second text is the first one without the blanks around it. -/
structure TrimmedTo (cs x : List Char) : Prop where
  around : ∃ before after, cs = before ++ (x ++ after) ∧ ∀ c ∈ before ++ after, isBlank c = true
  head : ∀ c ∈ x.head?, isBlank c = false
  last : ∀ c ∈ x.getLast?, isBlank c = false

section Blanks

variable {cs ds x : List Char} {p : Char → Bool}

theorem dropWhile_of_head? (h : ∀ c ∈ cs.head?, p c = false) : cs.dropWhile p = cs := by
  cases cs with
  | nil => rfl
  | cons c cs => exact List.dropWhile_cons_of_neg (by simp [h c rfl])

/-- Of blanks with a text behind them only the text is left, if it does not start with a blank. -/
theorem dropWhile_append_of_head? (hcs : ∀ c ∈ cs, p c = true) (hds : ∀ c ∈ ds.head?, p c = false) :
    (cs ++ ds).dropWhile p = ds := by
  rw [List.dropWhile_append_of_pos hcs, dropWhile_of_head? hds]

theorem TrimmedTo.trimBlank_eq (h : TrimmedTo cs x) : trimBlank cs = x := by
  obtain ⟨before, after, rfl, hblank⟩ := h.around
  have hbefore : ∀ c ∈ before, isBlank c = true := fun c hc => hblank c (List.mem_append_left _ hc)
  have hafter : ∀ c ∈ after, isBlank c = true := fun c hc => hblank c (List.mem_append_right _ hc)
  cases x with
  | nil =>
    rw [trimBlank, List.nil_append, List.dropWhile_eq_nil_iff.2 hblank]
    rfl
  | cons c x =>
    have hlast : ∀ d ∈ (c :: x).reverse.head?, isBlank d = false := by
      rw [List.head?_reverse]
      exact h.last
    have hhead : ∀ d ∈ (c :: x ++ after).head?, isBlank d = false := h.head
    rw [trimBlank, dropWhile_append_of_head? hbefore hhead, List.reverse_append,
      dropWhile_append_of_head? (fun d hd => hafter d (List.mem_reverse.1 hd)) hlast,
      List.reverse_reverse]

theorem head?_dropWhile_eq_false : ∀ c ∈ (cs.dropWhile p).head?, p c = false := by
  intro c hc
  have hnot := List.head?_dropWhile_not p cs
  rw [Option.mem_def.1 hc] at hnot
  exact hnot

theorem trimmedTo_trimBlank (cs : List Char) : TrimmedTo cs (trimBlank cs) := by
  obtain ⟨rest, hrest⟩ : ∃ rest, rest = cs.dropWhile isBlank := ⟨_, rfl⟩
  have htrim : trimBlank cs = (rest.reverse.dropWhile isBlank).reverse := by
    rw [hrest, trimBlank]
  have hsplit : rest = trimBlank cs ++ (rest.reverse.takeWhile isBlank).reverse := by
    rw [htrim, ← List.reverse_append, List.takeWhile_append_dropWhile, List.reverse_reverse]
  refine ⟨⟨cs.takeWhile isBlank, (rest.reverse.takeWhile isBlank).reverse, ?_, ?_⟩, ?_, ?_⟩
  · rw [← hsplit, hrest, List.takeWhile_append_dropWhile]
  · intro c hc
    rcases List.mem_append.1 hc with hc | hc
    · exact List.mem_takeWhile_imp hc
    · exact List.mem_takeWhile_imp (List.mem_reverse.1 hc)
  · intro c hc
    have hhead : ∀ c ∈ (cs.dropWhile isBlank).head?, isBlank c = false := head?_dropWhile_eq_false
    refine hhead c ?_
    rw [← hrest, hsplit, List.head?_append, Option.mem_def.1 hc]
    rfl
  · intro c hc
    rw [htrim, List.getLast?_reverse] at hc
    exact head?_dropWhile_eq_false c hc

end Blanks

/-! ### Numerals -/

/-- The text consists of decimal digits, at least one, that have the positional value `n`. -/
def IsDecimal (cs : List Char) (n : Nat) : Prop :=
  ∃ digits : List Nat, digits ≠ [] ∧ List.Forall₂ (IsDigitOf 10) cs digits ∧
    n = Nat.ofDigits 10 digits.reverse

/-- The text is a numeral: decimal digits, with a sign in front that may be missing. -/
inductive Numeral : List Char → Int → Prop
  | unsigned {cs : List Char} {n : Nat} (h : IsDecimal cs n) : Numeral cs n
  | plus {cs : List Char} {n : Nat} (h : IsDecimal cs n) : Numeral ('+' :: cs) n
  | minus {cs : List Char} {n : Nat} (h : IsDecimal cs n) : Numeral ('-' :: cs) (-n)

section Numerals

variable {c : Char} {cs : List Char} {d n : Nat} {value : Int}

theorem IsDigitOf.isDigit (h : IsDigitOf 10 c d) : c.isDigit = true := by
  obtain ⟨hd, hc⟩ := h
  have hvalue : c.toLower.toNat = d + 48 := by
    rw [hc, toNat_digitChar (Nat.lt_trans hd (by decide)), if_pos hd]
  have hupper : ¬ c.isUpper = true := fun hupper => by
    have hrange := isUpper_iff.1 hupper
    rw [toNat_toLower hupper] at hvalue
    omega
  rw [toLower_of_not_isUpper hupper] at hvalue
  have hzero : '0'.toNat = 48 := rfl
  have hnine : '9'.toNat = 57 := rfl
  exact Char.isDigit_iff_toNat.2 (by omega)

theorem IsDecimal.forall_isDigit (h : IsDecimal cs n) : ∀ c ∈ cs, c.isDigit = true := by
  obtain ⟨digits, -, hdigits, -⟩ := h
  have hboth : List.Forall₂ (fun c d => c.isDigit = true ∧ IsDigitOf 10 c d) cs digits :=
    hdigits.imp fun c d hd => ⟨hd.isDigit, hd⟩
  exact ((List.forall₂_and_left _ _).1 hboth).1

theorem IsDecimal.ne_nil (h : IsDecimal cs n) : cs ≠ [] := by
  obtain ⟨digits, hne, hdigits, -⟩ := h
  rintro rfl
  exact hne (List.forall₂_nil_left_iff.1 hdigits)

/-- A run of digits is decoded as its positional value. -/
theorem decimalValue?_eq_some_iff : decimalValue? cs = some n ↔ IsDecimal cs n := by
  have hvalue (hdigits : ∀ c ∈ cs, c.isDigit = true) : Nat.ofDigitChars 10 cs 0 = n ↔
      ∃ digits, List.Forall₂ (IsDigitOf 10) cs digits ∧ n = Nat.ofDigits 10 digits.reverse := by
    rw [← Option.some_inj, ← positional?_of_isDigit hdigits, positional?_eq_some_iff (by decide)]
    simp only [Nat.mul_zero, Nat.add_zero]
  unfold decimalValue?
  constructor
  · intro h
    split at h
    · next hall =>
      obtain ⟨hne, hall⟩ := hall
      obtain ⟨digits, hdigits, hn⟩ :=
        (hvalue (List.all_eq_true.1 hall)).1 (Option.some.inj h)
      refine ⟨digits, ?_, hdigits, hn⟩
      rintro rfl
      exact hne (List.forall₂_nil_right_iff.1 hdigits)
    · cases h
  · intro h
    have hdigits := h.forall_isDigit
    rw [if_pos ⟨h.ne_nil, List.all_eq_true.2 hdigits⟩]
    obtain ⟨digits, -, hforall, hn⟩ := h
    exact congrArg some ((hvalue hdigits).2 ⟨digits, hforall, hn⟩)

theorem not_isDecimal_cons (hc : c.isDigit = false) : ¬ IsDecimal (c :: cs) n := fun h =>
  Bool.false_ne_true (hc.symm.trans (h.forall_isDigit c List.mem_cons_self))

/-- A numeral is decoded as its value, and no other text is decoded. -/
theorem signedDecimalValue?_eq_some_iff :
    signedDecimalValue? cs = some value ↔ Numeral cs value := by
  unfold signedDecimalValue?
  -- a sign is not a digit, so the first character says which kind of numeral it can be
  split
  · next ds =>
    simp only [Option.map_eq_some_iff, decimalValue?_eq_some_iff]
    constructor
    · rintro ⟨n, h, rfl⟩
      exact .minus h
    · intro h
      cases h with
      | unsigned h => exact absurd h (not_isDecimal_cons rfl)
      | minus h => exact ⟨_, h, rfl⟩
  · next ds =>
    simp only [Option.map_eq_some_iff, decimalValue?_eq_some_iff]
    constructor
    · rintro ⟨n, h, rfl⟩
      exact .plus h
    · intro h
      cases h with
      | unsigned h => exact absurd h (not_isDecimal_cons rfl)
      | plus h => exact ⟨_, h, rfl⟩
  · next hminus hplus =>
    simp only [Option.map_eq_some_iff, decimalValue?_eq_some_iff]
    constructor
    · rintro ⟨n, h, rfl⟩
      exact .unsigned h
    · intro h
      cases h with
      | unsigned h => exact ⟨_, h, rfl⟩
      | plus h => exact absurd rfl (hplus _)
      | minus h => exact absurd rfl (hminus _)

/-- A numeral starts with a sign or a digit. -/
theorem Numeral.head?_eq (h : Numeral cs value) :
    ∃ c, cs.head? = some c ∧ (c = '+' ∨ c = '-' ∨ c.isDigit = true) := by
  cases h with
  | plus => exact ⟨_, rfl, Or.inl rfl⟩
  | minus => exact ⟨_, rfl, Or.inr (Or.inl rfl)⟩
  | unsigned h =>
    obtain ⟨c, ds, rfl⟩ := List.exists_cons_of_ne_nil h.ne_nil
    exact ⟨c, rfl, Or.inr (Or.inr (h.forall_isDigit c List.mem_cons_self))⟩

theorem isDecimal_toDigits (n : Nat) : IsDecimal (Nat.toDigits 10 n) n := by
  have hall : (Nat.toDigits 10 n).all Char.isDigit = true :=
    List.all_eq_true.2 (forall_isDigit_toDigits n)
  rw [← decimalValue?_eq_some_iff, decimalValue?, if_pos ⟨Nat.toDigits_ne_nil, hall⟩,
    Nat.ofDigitChars_ten_toDigits]

/-- A number in decimal is a numeral for it. -/
theorem numeral_toString (value : Int) : Numeral (toString value).toList value := by
  have hdigits := isDecimal_toDigits value.natAbs
  rw [toList_toString]
  split
  · next hneg =>
    have hvalue : value = -(value.natAbs : Int) := by omega
    conv => rhs; rw [hvalue]
    exact .minus hdigits
  · next hpos =>
    have hvalue : value = (value.natAbs : Int) := by omega
    conv => rhs; rw [hvalue]
    exact .unsigned hdigits

end Numerals

/-! ### What a text stands for -/

namespace Attribute

/-- The texts that stand for the default. -/
def defaultTexts (a : Attribute) : List String :=
  ["", "default", "(default)", "(default) " ++ toString a.parameter.default.toInt]

/-- What a text without blanks around it stands for. The kinds of texts exclude each other. -/
inductive Reads (a : Attribute) (x : String) : Except Refusal (Option Int32) → Prop
  | default (h : x ∈ a.defaultTexts) : Reads a x (.ok none)
  | value {v : Int32} (h : Numeral x.toList v.toInt) : Reads a x (.ok (some v))
  | tooSmall {n : Int} {fault : ValueFault} (h : Numeral x.toList n) (hlow : -2 ^ 63 ≤ n)
      (hsmall : n < -2 ^ 31) (hfault : fault.text = "integer too small") :
      Reads a x (.error (.value x fault))
  | tooLarge {n : Int} {fault : ValueFault} (h : Numeral x.toList n) (hlarge : 2 ^ 31 ≤ n)
      (hhigh : n < 2 ^ 63) (hfault : fault.text = "integer too large") :
      Reads a x (.error (.value x fault))
  | notAnInteger {fault : ValueFault} (hdefault : x ∉ a.defaultTexts)
      (h : ∀ n, Numeral x.toList n → n < -2 ^ 63 ∨ 2 ^ 63 ≤ n)
      (hfault : fault.text = "not an integer") : Reads a x (.error (.value x fault))

section Reading

variable {a : Attribute} {text x : String} {n : Int} {result : Except Refusal (Option Int32)}

/-- The faults are told apart by their wording. -/
theorem eq_of_text_eq {fault fault' : ValueFault} (h : fault.text = fault'.text) :
    fault = fault' := by
  cases fault <;> cases fault' <;> simp_all [ValueFault.text]

theorem isDefaultText_iff : a.isDefaultText x = true ↔ x ∈ a.defaultTexts := by
  simp only [isDefaultText, defaultTexts, display, Bool.or_eq_true, beq_iff_eq, List.mem_cons,
    List.not_mem_nil, or_false, or_assoc]

/-- No text for the default is a numeral. -/
theorem not_numeral_of_mem (h : x ∈ a.defaultTexts) : ¬ Numeral x.toList n := by
  intro hnumeral
  obtain ⟨c, hc, hkind⟩ := hnumeral.head?_eq
  have hstart : c = 'd' ∨ c = '(' := by
    simp only [defaultTexts, List.mem_cons, List.not_mem_nil, or_false] at h
    generalize toString a.parameter.default.toInt = shown at h
    rcases h with rfl | rfl | rfl | rfl
    · cases hc
    · exact Or.inl (Option.some.inj hc).symm
    · exact Or.inr (Option.some.inj hc).symm
    · rw [String.toList_append] at hc
      exact Or.inr (Option.some.inj hc).symm
  rcases hstart with rfl | rfl
  · revert hkind; decide
  · revert hkind; decide

theorem override_of_not_numeral (h : ∀ n, ¬ Numeral x.toList n) :
    override x = .error (.value x .notAnInteger) := by
  have hnone : signedDecimalValue? x.toList = none :=
    Option.eq_none_iff_forall_ne_some.2 fun n hn => h n (signedDecimalValue?_eq_some_iff.1 hn)
  rw [override, hnone]

/-- The value of a numeral, where it has one. -/
theorem override_of_numeral (h : Numeral x.toList n) :
    override x =
      if n < -2 ^ 63 ∨ 2 ^ 63 ≤ n then .error (.value x .notAnInteger)
      else if n < -2 ^ 31 then .error (.value x .tooSmall)
      else if 2 ^ 31 ≤ n then .error (.value x .tooLarge)
      else .ok (some (Int32.ofInt n)) := by
  have hlow : Int64.minValue.toInt = -2 ^ 63 := rfl
  have hhigh : Int64.maxValue.toInt < n ↔ 2 ^ 63 ≤ n := by
    rw [show Int64.maxValue.toInt = 2 ^ 63 - 1 from rfl]
    omega
  have hsmall : Int32.minValue.toInt = -2 ^ 31 := rfl
  have hlarge : Int32.maxValue.toInt < n ↔ 2 ^ 31 ≤ n := by
    rw [show Int32.maxValue.toInt = 2 ^ 31 - 1 from rfl]
    omega
  simp only [override, signedDecimalValue?_eq_some_iff.2 h, hlow, hhigh, hsmall, hlarge]

theorem parse_of_trimmedTo (h : TrimmedTo text.toList x.toList) :
    a.parse text = if a.isDefaultText x then .ok none else override x := by
  rw [parse, h.trimBlank_eq, String.ofList_toList]

/-- A text has the value of its kind. -/
theorem parse_of_reads (htrim : TrimmedTo text.toList x.toList) (h : a.Reads x result) :
    a.parse text = result := by
  have hnot : ∀ {n}, Numeral x.toList n → ¬ a.isDefaultText x = true := fun hnumeral hdefault =>
    not_numeral_of_mem (isDefaultText_iff.1 hdefault) hnumeral
  rw [parse_of_trimmedTo htrim]
  -- each kind rules out the bounds that are compared in front of its own
  cases h with
  | default h => exact if_pos (isDefaultText_iff.2 h)
  | @value v h =>
    have hlow := v.le_toInt
    have hhigh := v.toInt_lt
    rw [if_neg (hnot h), override_of_numeral h, if_neg (by omega), if_neg (by omega),
      if_neg (by omega), Int32.ofInt_toInt]
  | @tooSmall n fault h hlow hsmall hfault =>
    obtain rfl : fault = .tooSmall := eq_of_text_eq hfault
    rw [if_neg (hnot h), override_of_numeral h, if_neg (by omega), if_pos hsmall]
  | @tooLarge n fault h hlarge hhigh hfault =>
    obtain rfl : fault = .tooLarge := eq_of_text_eq hfault
    rw [if_neg (hnot h), override_of_numeral h, if_neg (by omega), if_neg (by omega), if_pos hlarge]
  | @notAnInteger fault hdefault h hfault =>
    obtain rfl : fault = .notAnInteger := eq_of_text_eq hfault
    rw [if_neg (mt isDefaultText_iff.1 hdefault)]
    by_cases hnumeral : ∃ n, Numeral x.toList n
    · obtain ⟨n, hn⟩ := hnumeral
      rw [override_of_numeral hn, if_pos (h n hn)]
    · exact override_of_not_numeral fun n hn => hnumeral ⟨n, hn⟩

/-- Each text is of some kind. -/
theorem exists_reads (a : Attribute) (x : String) : ∃ result, a.Reads x result := by
  by_cases hdefault : x ∈ a.defaultTexts
  · exact ⟨_, .default hdefault⟩
  by_cases hwide : ∃ n, Numeral x.toList n ∧ -2 ^ 63 ≤ n ∧ n < 2 ^ 63
  · obtain ⟨n, hn, hlow, hhigh⟩ := hwide
    by_cases hsmall : n < -2 ^ 31
    · exact ⟨.error (.value x .tooSmall), .tooSmall hn hlow hsmall rfl⟩
    by_cases hlarge : 2 ^ 31 ≤ n
    · exact ⟨.error (.value x .tooLarge), .tooLarge hn hlarge hhigh rfl⟩
    · have hvalue : (Int32.ofInt n).toInt = n :=
        Int32.toInt_ofInt_of_le (Int.not_lt.1 hsmall) (Int.not_le.1 hlarge)
      exact ⟨.ok (some (Int32.ofInt n)), .value (hvalue.symm ▸ hn)⟩
  · refine ⟨.error (.value x .notAnInteger), .notAnInteger hdefault (fun n hn => ?_) rfl⟩
    by_contra hbounds
    exact hwide ⟨n, hn, by omega, by omega⟩

theorem parse_eq_iff_reads (htrim : TrimmedTo text.toList x.toList) :
    a.parse text = result ↔ a.Reads x result := by
  refine ⟨?_, parse_of_reads htrim⟩
  rintro rfl
  obtain ⟨result, h⟩ := exists_reads a x
  rwa [parse_of_reads htrim h]

end Reading

/-! ### Values that are shown and read back -/

section Display

variable {c : Char} {cs : List Char} {n : Int}

theorem isBlank_of_isDigit (h : c.isDigit = true) : isBlank c = false := by
  have hrange : 48 ≤ c.toNat ∧ c.toNat ≤ 57 := Char.isDigit_iff_toNat.1 h
  simp [isBlank, blankRanges]
  omega

theorem exists_getLast?_of_numeral (h : Numeral cs n) :
    ∃ c, cs.getLast? = some c ∧ c.isDigit = true := by
  have hlast : ∀ {ds m}, IsDecimal ds m → ∃ c, ds.getLast? = some c ∧ c.isDigit = true :=
    fun {ds m} hds => ⟨ds.getLast hds.ne_nil, List.getLast?_eq_some_getLast hds.ne_nil,
      hds.forall_isDigit _ (List.getLast_mem hds.ne_nil)⟩
  cases h with
  | unsigned h => exact hlast h
  | plus h =>
    obtain ⟨c, hc, hdigit⟩ := hlast h
    exact ⟨c, by rw [List.getLast?_cons, hc]; rfl, hdigit⟩
  | minus h =>
    obtain ⟨c, hc, hdigit⟩ := hlast h
    exact ⟨c, by rw [List.getLast?_cons, hc]; rfl, hdigit⟩

theorem isBlank_of_head?_numeral (h : Numeral cs n) : ∀ c ∈ cs.head?, isBlank c = false := by
  intro c hc
  obtain ⟨d, hd, hkind⟩ := h.head?_eq
  obtain rfl : c = d := Option.some.inj (hc.symm.trans hd)
  rcases hkind with rfl | rfl | hdigit
  · decide
  · decide
  · exact isBlank_of_isDigit hdigit

theorem isBlank_of_getLast?_numeral (h : Numeral cs n) : ∀ c ∈ cs.getLast?, isBlank c = false := by
  intro c hc
  obtain ⟨d, hd, hdigit⟩ := exists_getLast?_of_numeral h
  obtain rfl : c = d := Option.some.inj (hc.symm.trans hd)
  exact isBlank_of_isDigit hdigit

/-- What is shown for a value neither starts nor ends with a blank. -/
theorem trimmedTo_display (a : Attribute) (v : Option Int32) {before after : List Char}
    (hblank : ∀ c ∈ before ++ after, isBlank c = true) :
    TrimmedTo (before ++ ((a.display v).toList ++ after)) (a.display v).toList := by
  refine ⟨⟨before, after, rfl, hblank⟩, ?_, ?_⟩
  · cases v with
    | some v => exact isBlank_of_head?_numeral (numeral_toString v.toInt)
    | none =>
      rw [display, String.toList_append]
      intro c hc
      obtain rfl : '(' = c := Option.some.inj hc
      decide
  · cases v with
    | some v => exact isBlank_of_getLast?_numeral (numeral_toString v.toInt)
    | none =>
      have hnumeral := numeral_toString a.parameter.default.toInt
      obtain ⟨c, hc, hdigit⟩ := exists_getLast?_of_numeral hnumeral
      rw [display, String.toList_append, List.getLast?_append, hc]
      intro d hd
      obtain rfl : c = d := Option.some.inj hd
      exact isBlank_of_isDigit hdigit

theorem reads_display (a : Attribute) (v : Option Int32) : a.Reads (a.display v) (.ok v) := by
  cases v with
  | none => exact .default (by simp [defaultTexts, display])
  | some v => exact .value (numeral_toString v.toInt)

/-- **What any text stands for.** Without the blanks around it, each text is of one kind, and has
the value of this kind. Among the texts for a value is the one that is shown for it, with any
blanks around it. -/
theorem parse_exact (a : Attribute) :
    (∀ v before after, (∀ c ∈ before ++ after, isBlank c = true) →
      a.parse (String.ofList (before ++ ((a.display v).toList ++ after))) = .ok v) ∧
    ∀ text, ∃ x : String, TrimmedTo text.toList x.toList ∧
      ∀ result, a.parse text = result ↔ a.Reads x result := by
  refine ⟨fun v before after hblank => ?_, fun text => ?_⟩
  · have htrim := trimmedTo_display a v hblank
    rw [← @String.toList_ofList (before ++ _)] at htrim
    exact parse_of_reads htrim (reads_display a v)
  · have htrim : TrimmedTo text.toList (String.ofList (trimBlank text.toList)).toList := by
      rw [String.toList_ofList]
      exact trimmedTo_trimBlank text.toList
    exact ⟨_, htrim, fun result => parse_eq_iff_reads htrim⟩

/-- The least value with an ideographic space and a tab around it. -/
theorem parse_exact_padded :
    (∀ c ∈ ['\u3000'] ++ ['\t'], isBlank c = true) ∧
      (ofParameter ⟨"WIDTH", none, 8⟩).parse (String.ofList (['\u3000'] ++
        (((ofParameter ⟨"WIDTH", none, 8⟩).display (some Int32.minValue)).toList ++ ['\t']))) =
          .ok (some Int32.minValue) := by
  have hblank : ∀ c ∈ ['\u3000'] ++ ['\t'], isBlank c = true :=
    List.forall_mem_cons.2 ⟨rfl, List.forall_mem_singleton.2 rfl⟩
  exact ⟨hblank, (parse_exact _).1 (some Int32.minValue) _ _ hblank⟩

end Display

end Attribute

end HdlModule
