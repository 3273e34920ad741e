import HdlModule.Token.Lexeme

/-!
# The first lexeme of a text

`leading` finds the first lexeme of a text by running over it. The relation `Leads` says the same
by what stands in the text: which characters the lexeme has, and what the text behind it does not
go on with.

## Main definitions

* `Stops p rest`: the text does not go on with a character of the class
* `BasedTail`, `StringItem`: the parts of based literals and of strings
* `Leads c ds rest k`: the characters `c :: ds` in front of `rest` are a lexeme of kind `k`

## Main results

* `leading_eq_iff`: `leading` computes `Leads`
-/

namespace HdlModule

/-! ### Runs of a class -/

section Runs

variable {p : Char → Bool} {ds rest : List Char}

/-- The text does not go on with a character of the class. -/
def Stops (p : Char → Bool) (rest : List Char) : Prop := ∀ c ∈ rest.head?, p c = false

@[simp]
theorem stops_nil : Stops p [] := by simp [Stops]

@[simp]
theorem stops_cons {c : Char} {cs : List Char} : Stops p (c :: cs) ↔ p c = false := by
  simp [Stops]

theorem runLength_append (hds : ∀ d ∈ ds, p d = true) (hrest : Stops p rest) :
    runLength p (ds ++ rest) = ds.length := by
  have htake : rest.takeWhile p = [] := by
    cases rest with
    | nil => rfl
    | cons c cs => simp [stops_cons.1 hrest]
  rw [runLength, List.takeWhile_append_of_pos hds, htake, List.append_nil]

/-- Every text is a run of the class and a rest behind it. -/
theorem exists_run (p : Char → Bool) (cs : List Char) :
    ∃ ds rest, cs = ds ++ rest ∧ (∀ d ∈ ds, p d = true) ∧ Stops p rest := by
  refine ⟨cs.takeWhile p, cs.dropWhile p, List.takeWhile_append_dropWhile.symm, ?_, ?_⟩
  · exact List.all_eq_true.1 List.all_takeWhile
  · intro c hc
    have hnot := List.head?_dropWhile_not p cs
    rw [Option.mem_def.1 hc] at hnot
    simpa using hnot

end Runs

/-! ### Tails of based literals -/

/-- What follows the apostrophe of a based literal: an optional sign letter, a base letter and at
least one digit. -/
inductive BasedTail : List Char → Prop
  | unsigned {base digit : Char} {ds : List Char} (hbase : isBaseLetter base = true)
      (hdigit : isBasedDigit digit = true) (hds : ∀ d ∈ ds, isBasedDigit d = true) :
      BasedTail (base :: digit :: ds)
  | signed {sign base digit : Char} {ds : List Char} (hsign : isSignLetter sign = true)
      (hbase : isBaseLetter base = true) (hdigit : isBasedDigit digit = true)
      (hds : ∀ d ∈ ds, isBasedDigit d = true) : BasedTail (sign :: base :: digit :: ds)

/-- The text does not go on with the tail of a based literal. -/
def StopsBased (rest : List Char) : Prop := ∀ tail, tail <+: rest → ¬ BasedTail tail

theorem isSignLetter_of_isBaseLetter {c : Char} (h : isBaseLetter c = true) :
    isSignLetter c = false := by
  have hne : ∀ d ∈ "bodh".toList, d ≠ 's' := by simp
  simp only [isBaseLetter, List.contains_iff_mem] at h
  simpa [isSignLetter] using hne _ h

section Based

variable {tail rest : List Char}

theorem baseAndDigits?_eq_some {base digit : Char} {ds : List Char}
    (hbase : isBaseLetter base = true) (hdigit : isBasedDigit digit = true)
    (hds : ∀ d ∈ ds, isBasedDigit d = true) (hrest : Stops isBasedDigit rest) :
    baseAndDigits? (base :: digit :: (ds ++ rest)) = some (2 + ds.length) := by
  simp [baseAndDigits?, hbase, hdigit, runLength_append hds hrest]

theorem basedTail?_eq_some (h : BasedTail tail) (hrest : Stops isBasedDigit rest) :
    basedTail? (tail ++ rest) = some tail.length := by
  cases h with
  | unsigned hbase hdigit hds =>
    simp only [List.cons_append, basedTail?, isSignLetter_of_isBaseLetter hbase,
      baseAndDigits?_eq_some hbase hdigit hds hrest]
    simp only [Bool.false_eq_true, if_false, List.length_cons, Option.some.injEq]
    omega
  | signed hsign hbase hdigit hds =>
    simp only [List.cons_append, basedTail?, hsign, baseAndDigits?_eq_some hbase hdigit hds hrest]
    simp only [if_true, Option.map_some, List.length_cons, Option.some.injEq]
    omega

/-- No base with a digit behind it is found where none stands. -/
theorem baseAndDigits?_eq_none {cs : List Char}
    (h : ∀ base digit, [base, digit] <+: cs → isBaseLetter base = true →
      isBasedDigit digit = false) : baseAndDigits? cs = none := by
  unfold baseAndDigits?
  split
  · next base digit cs =>
    have hfound : (isBaseLetter base && isBasedDigit digit) = false := by
      cases hbase : isBaseLetter base with
      | false => rfl
      | true => exact h base digit (by simp) hbase
    rw [hfound]
    rfl
  · rfl

theorem basedTail?_eq_none (h : StopsBased rest) : basedTail? rest = none := by
  unfold basedTail?
  split
  · rfl
  · next c cs =>
    split
    · next hsign =>
      have hcs : baseAndDigits? cs = none := by
        refine baseAndDigits?_eq_none fun base digit hprefix hbase => ?_
        refine Bool.eq_false_iff.2 fun hdigit => ?_
        exact h [c, base, digit] ((List.prefix_cons_inj c).2 hprefix)
          (.signed hsign hbase hdigit (by simp))
      rw [hcs]
      rfl
    · refine baseAndDigits?_eq_none fun base digit hprefix hbase => ?_
      refine Bool.eq_false_iff.2 fun hdigit => ?_
      exact h [base, digit] hprefix (.unsigned hbase hdigit (by simp))

/-- The tail of a based literal with more digits behind it is one. -/
theorem BasedTail.append_digits {ds : List Char} (h : BasedTail tail)
    (hds : ∀ d ∈ ds, isBasedDigit d = true) : BasedTail (tail ++ ds) := by
  cases h with
  | unsigned hbase hdigit hes =>
    refine BasedTail.unsigned hbase hdigit fun d hd => ?_
    exact (List.mem_append.1 hd).elim (hes d) (hds d)
  | signed hsign hbase hdigit hes =>
    refine BasedTail.signed hsign hbase hdigit fun d hd => ?_
    exact (List.mem_append.1 hd).elim (hes d) (hds d)

/-- Either a based literal goes on behind the apostrophe, up to its last digit, or none does. -/
theorem exists_basedTail (cs : List Char) :
    (∃ tail rest, cs = tail ++ rest ∧ BasedTail tail ∧ Stops isBasedDigit rest) ∨
      StopsBased cs := by
  by_cases h : ∃ tail, tail <+: cs ∧ BasedTail tail
  · left
    obtain ⟨tail, ⟨rest, rfl⟩, htail⟩ := h
    -- the tail that stands there may be cut short, so the digits behind it are taken too
    obtain ⟨ds, rest, rfl, hds, hrest⟩ := exists_run isBasedDigit rest
    exact ⟨tail ++ ds, rest, (List.append_assoc ..).symm, htail.append_digits hds, hrest⟩
  · exact Or.inr fun tail hprefix htail => h ⟨tail, hprefix, htail⟩

/-- The tail of a based literal needs no more than its first three characters to be one. -/
theorem BasedTail.take_three (h : BasedTail tail) : BasedTail (tail.take 3) := by
  cases h with
  | @unsigned base digit ds hbase hdigit hds =>
    exact BasedTail.unsigned hbase hdigit fun d hd => hds d (List.mem_of_mem_take hd)
  | signed hsign hbase hdigit hds => exact BasedTail.signed hsign hbase hdigit (by simp)

end Based

/-! ### Items of strings -/

/-- An item of a string: a character that needs no backslash, or a backslash with any character
but LF. -/
inductive StringItem : List Char → Prop
  | plain {c : Char} (hquote : c ≠ '\x22') (hslash : c ≠ '\x5c') (hend : isLineEnd c = false) :
      StringItem [c]
  | escaped {c : Char} (hc : c ≠ '\n') : StringItem ['\x5c', c]

/-- A run of string items. -/
inductive StringItems : List Char → Prop
  | nil : StringItems []
  | cons {item cs : List Char} (hitem : StringItem item) (hcs : StringItems cs) :
      StringItems (item ++ cs)

/-- The text does not go on with an item of a string. -/
def StopsItem (rest : List Char) : Prop := ∀ item, item <+: rest → ¬ StringItem item

section Strings

variable {ds rest : List Char}

theorem stringItems_of_stopsItem (h : StopsItem rest) : stringItems rest = 0 := by
  unfold stringItems
  split
  · rfl
  · next c cs =>
    split
    · rfl
    · next hc => exact absurd (StringItem.escaped hc) (h _ (by simp))
  · next c cs _ =>
    split
    · rfl
    · next hc =>
      rw [not_or, not_or, Bool.not_eq_true] at hc
      exact absurd (StringItem.plain hc.1 hc.2.1 hc.2.2) (h [c] (by simp))

theorem stringItems_append_item {item : List Char} (h : StringItem item) (cs : List Char) :
    stringItems (item ++ cs) = stringItems cs + item.length := by
  cases h with
  | escaped hc => simp [stringItems, hc]
  | @plain c hquote hslash hend =>
    rw [List.singleton_append, stringItems]
    · simp [hquote, hslash, hend]
    · intro d ds he
      exact absurd he hslash

theorem stringItems_append (hds : StringItems ds) (hrest : StopsItem rest) :
    stringItems (ds ++ rest) = ds.length := by
  induction hds with
  | nil => exact stringItems_of_stopsItem hrest
  | cons hitem _ ih =>
    rw [List.append_assoc, stringItems_append_item hitem, ih, List.length_append, Nat.add_comm]

/-- Every text is a run of string items and a rest behind it. -/
theorem exists_stringItems (cs : List Char) :
    ∃ ds rest, cs = ds ++ rest ∧ StringItems ds ∧ StopsItem rest := by
  -- an item is not empty, so the recursion is on a shorter text
  by_cases h : ∃ item, item <+: cs ∧ StringItem item
  · obtain ⟨item, ⟨more, hcs⟩, hitem⟩ := h
    have hlt : more.length < cs.length := by
      rw [← hcs, List.length_append]
      cases hitem <;> simp
    obtain ⟨ds, rest, hmore, hds, hrest⟩ := exists_stringItems more
    exact ⟨item ++ ds, rest, by rw [← hcs, hmore, List.append_assoc], .cons hitem hds, hrest⟩
  · exact ⟨[], cs, rfl, .nil, fun item hprefix hitem => h ⟨item, hprefix, hitem⟩⟩
termination_by cs.length

theorem stopsItem_quote (cs : List Char) : StopsItem ('\x22' :: cs) := by
  intro item hprefix hitem
  cases hitem with
  | plain hquote hslash hend => exact hquote (List.cons_prefix_cons.1 hprefix).1
  | escaped hc => exact absurd (List.cons_prefix_cons.1 hprefix).1 (by decide)

end Strings

/-! ### The first lexeme -/

/-- A character that no lexeme of several characters starts with. -/
structure StandsAlone (c : Char) : Prop where
  not_space : isSpace c = false
  not_word : isWordStart c = false
  not_digit : c.isDigit = false
  not_opening : c ∉ ['\x27', '\x22', '\x60', '/', ':']

/-- `Leads c ds rest k`: the characters `c :: ds` in front of `rest` are a lexeme of kind `k`. -/
inductive Leads : Char → List Char → List Char → TokenKind → Prop
  | space {c : Char} {ds rest : List Char} (hc : isSpace c = true)
      (hds : ∀ d ∈ ds, isSpace d = true) (hrest : Stops isSpace rest) :
      Leads c ds rest .whitespace
  | word {c : Char} {ds rest : List Char} (hc : isWordStart c = true)
      (hds : ∀ d ∈ ds, isWordPart d = true) (hrest : Stops isWordPart rest) :
      Leads c ds rest (wordKind (c :: ds))
  | integer {c : Char} {ds rest : List Char} (hc : c.isDigit = true)
      (hds : ∀ d ∈ ds, isDecimalPart d = true) (hrest : Stops isDecimalPart rest)
      (hbased : ∀ tail, rest = '\x27' :: tail → StopsBased tail) : Leads c ds rest .integer
  | sized {c : Char} {ds tail rest : List Char} (hc : c.isDigit = true)
      (hds : ∀ d ∈ ds, isDecimalPart d = true) (htail : BasedTail tail)
      (hrest : Stops isBasedDigit rest) : Leads c (ds ++ '\x27' :: tail) rest .basedInteger
  | unsized {ds rest : List Char} (hds : BasedTail ds) (hrest : Stops isBasedDigit rest) :
      Leads '\x27' ds rest .basedInteger
  | apostrophe {rest : List Char} (hrest : StopsBased rest) : Leads '\x27' [] rest .invalid
  | string {ds rest : List Char} (hds : StringItems ds) : Leads '\x22' (ds ++ ['\x22']) rest .string
  | broken {ds rest : List Char} (hds : StringItems ds) (hrest : StopsItem rest)
      (hquote : ∀ c ∈ rest.head?, c ≠ '\x22') : Leads '\x22' ds rest .invalid
  | directive {d : Char} {ds rest : List Char} (hd : isWordStart d = true)
      (hds : ∀ d ∈ ds, isDirectivePart d = true) (hrest : Stops isDirectivePart rest) :
      Leads '\x60' (d :: ds) rest .directive
  | backtick {rest : List Char} (hrest : Stops isWordStart rest) : Leads '\x60' [] rest .invalid
  | comment {ds rest : List Char} (hds : ∀ d ∈ ds, (!isLineEnd d) = true)
      (hrest : Stops (!isLineEnd ·) rest) : Leads '/' ('/' :: ds) rest .lineComment
  | blockComment {rest : List Char} : Leads '/' ['*'] rest .blockCommentStart
  | slash {rest : List Char} (hrest : ∀ c ∈ rest.head?, c ≠ '/' ∧ c ≠ '*') :
      Leads '/' [] rest .slash
  | doubleColon {rest : List Char} : Leads ':' [':'] rest .doubleColon
  | colon {rest : List Char} (hrest : ∀ c ∈ rest.head?, c ≠ ':') : Leads ':' [] rest .colon
  | alone {c : Char} {rest : List Char} (hc : StandsAlone c) : Leads c [] rest (punctuation c)

/-- A character of a class without blanks is no blank. -/
theorem isSpace_of_class {p : Char → Bool} {c : Char} (hblank : p ' ' = false)
    (htab : p '\t' = false) (hcr : p '\r' = false) (hlf : p '\n' = false)
    (hff : p '\x0c' = false) (h : p c = true) : isSpace c = false := by
  refine Bool.eq_false_iff.2 fun hc => ?_
  simp only [isSpace, Bool.or_eq_true, beq_iff_eq] at hc
  rcases hc with (((rfl | rfl) | rfl) | rfl) | rfl
  · exact Bool.eq_false_iff.1 hblank h
  · exact Bool.eq_false_iff.1 htab h
  · exact Bool.eq_false_iff.1 hcr h
  · exact Bool.eq_false_iff.1 hlf h
  · exact Bool.eq_false_iff.1 hff h

theorem isSpace_of_isWordStart {c : Char} (h : isWordStart c = true) : isSpace c = false :=
  isSpace_of_class rfl rfl rfl rfl rfl h

theorem isSpace_of_isDigit {c : Char} (h : c.isDigit = true) : isSpace c = false :=
  isSpace_of_class rfl rfl rfl rfl rfl h

theorem isWordStart_of_isDigit {c : Char} (h : c.isDigit = true) : isWordStart c = false := by
  have hne : c ≠ '_' := by
    rintro rfl
    exact absurd h (by decide)
  have halpha : c.isAlpha = false := by
    -- the digits lie below both ranges of letters
    show (decide ('A'.val ≤ c.val ∧ c.val ≤ 'Z'.val) ||
      (decide ('a'.val ≤ c.val) && decide (c.val ≤ 'z'.val))) = false
    simp only [Char.isDigit] at h
    grind
  simp only [isWordStart, Bool.or_eq_false_iff, beq_eq_false_iff_ne]
  exact ⟨halpha, hne⟩

/-! ### The cases of `leading` -/

section Cases

variable {c : Char} (cs : List Char)

theorem leading_space (hc : isSpace c = true) :
    leading c cs = (.whitespace, runLength isSpace cs) := by
  rw [leading, if_pos hc]

theorem leading_word (hc : isWordStart c = true) :
    leading c cs = (wordKind (c :: cs.take (runLength isWordPart cs)), runLength isWordPart cs) := by
  rw [leading, if_neg (by simp [isSpace_of_isWordStart hc]), if_pos hc]

theorem leading_digit (hc : c.isDigit = true) : leading c cs = numberTail cs := by
  rw [leading, if_neg (by simp [isSpace_of_isDigit hc]),
    if_neg (by simp [isWordStart_of_isDigit hc]), if_pos hc]

theorem leading_apostrophe : leading '\x27' cs = apostropheTail cs := rfl

theorem leading_quote : leading '\x22' cs = quoteTail cs := rfl

theorem leading_backtick : leading '\x60' cs = backtickTail cs := rfl

theorem leading_slash : leading '/' cs = slashTail cs := rfl

theorem leading_colon : leading ':' cs = colonTail cs := rfl

theorem leading_alone (hc : StandsAlone c) : leading c cs = (punctuation c, 0) := by
  have hopen := hc.not_opening
  simp only [List.mem_cons, List.not_mem_nil, or_false, not_or] at hopen
  simp [leading, hc.not_space, hc.not_word, hc.not_digit, hopen]

end Cases

/-! ### `leading` computes `Leads` -/

theorem numberTail_integer {ds rest : List Char} (hds : ∀ d ∈ ds, isDecimalPart d = true)
    (hrest : Stops isDecimalPart rest) (hbased : ∀ tail, rest = '\x27' :: tail → StopsBased tail) :
    numberTail (ds ++ rest) = (.integer, ds.length) := by
  simp only [numberTail, runLength_append hds hrest, List.drop_left]
  split
  · next tail => rw [basedTail?_eq_none (hbased tail rfl)]
  · rfl

theorem numberTail_sized {ds tail rest : List Char} (hds : ∀ d ∈ ds, isDecimalPart d = true)
    (htail : BasedTail tail) (hrest : Stops isBasedDigit rest) :
    numberTail (ds ++ '\x27' :: (tail ++ rest)) =
      (.basedInteger, ds.length + 1 + tail.length) := by
  have hstop : Stops isDecimalPart ('\x27' :: (tail ++ rest)) := stops_cons.2 (by decide)
  simp only [numberTail, runLength_append hds hstop, List.drop_left,
    basedTail?_eq_some htail hrest]

theorem quoteTail_broken {ds rest : List Char} (hds : StringItems ds) (hrest : StopsItem rest)
    (hquote : ∀ c ∈ rest.head?, c ≠ '\x22') : quoteTail (ds ++ rest) = (.invalid, ds.length) := by
  simp only [quoteTail, stringItems_append hds hrest, List.drop_left]
  split
  · exact absurd rfl (hquote '\x22' rfl)
  · rfl

theorem slashTail_slash {rest : List Char} (hrest : ∀ c ∈ rest.head?, c ≠ '/' ∧ c ≠ '*') :
    slashTail rest = (.slash, 0) := by
  unfold slashTail
  split
  · exact absurd rfl (hrest '/' rfl).1
  · exact absurd rfl (hrest '*' rfl).2
  · rfl

theorem colonTail_colon {rest : List Char} (hrest : ∀ c ∈ rest.head?, c ≠ ':') :
    colonTail rest = (.colon, 0) := by
  unfold colonTail
  split
  · exact absurd rfl (hrest ':' rfl)
  · rfl

theorem leading_of_leads {c : Char} {ds rest : List Char} {k : TokenKind}
    (h : Leads c ds rest k) : leading c (ds ++ rest) = (k, ds.length) := by
  -- the classes of first characters are disjoint, so the order of the tests does not matter
  cases h with
  | space hc hds hrest => rw [leading_space _ hc, runLength_append hds hrest]
  | word hc hds hrest =>
    rw [leading_word _ hc, runLength_append hds hrest, List.take_left]
  | integer hc hds hrest hbased =>
    rw [leading_digit _ hc, numberTail_integer hds hrest hbased]
  | sized hc hds htail hrest =>
    rw [leading_digit _ hc, List.append_assoc, List.cons_append, numberTail_sized hds htail hrest]
    simp only [List.length_append, List.length_cons, Prod.mk.injEq, true_and]
    omega
  | unsized hds hrest =>
    rw [leading_apostrophe, apostropheTail, basedTail?_eq_some hds hrest]
  | apostrophe hrest =>
    rw [leading_apostrophe, List.nil_append, apostropheTail, basedTail?_eq_none hrest,
      List.length_nil]
  | string hds =>
    rw [leading_quote, List.append_assoc, List.singleton_append, quoteTail,
      stringItems_append hds (stopsItem_quote rest), List.drop_left, List.length_append,
      List.length_singleton]
    rfl
  | broken hds hrest hquote => rw [leading_quote, quoteTail_broken hds hrest hquote]
  | directive hd hds hrest =>
    rw [leading_backtick, List.cons_append, backtickTail, if_pos hd, runLength_append hds hrest,
      List.length_cons, Nat.add_comm]
  | backtick hrest =>
    rw [leading_backtick, List.nil_append]
    cases rest with
    | nil => rfl
    | cons d cs =>
      rw [backtickTail, if_neg (by simp [stops_cons.1 hrest]), List.length_nil]
  | comment hds hrest =>
    rw [leading_slash, List.cons_append, slashTail, runLength_append hds hrest, List.length_cons,
      Nat.add_comm]
  | blockComment => rfl
  | slash hrest => rw [leading_slash, List.nil_append, slashTail_slash hrest, List.length_nil]
  | doubleColon => rfl
  | colon hrest => rw [leading_colon, List.nil_append, colonTail_colon hrest, List.length_nil]
  | alone hc => rw [leading_alone _ hc, List.length_nil]

section Exists

/-- A text starts with a given character, or it does not. -/
theorem starts_or_not (x : Char) (cs : List Char) :
    (∃ rest, cs = x :: rest) ∨ ∀ c ∈ cs.head?, c ≠ x := by
  cases cs with
  | nil => exact Or.inr (by simp)
  | cons c cs =>
    by_cases hc : c = x
    · exact Or.inl ⟨cs, by rw [hc]⟩
    · exact Or.inr (by simpa using hc)

/-- A decimal literal leads the text, or the literal goes on behind an apostrophe. -/
theorem exists_leads_digit {c : Char} {ds rest : List Char} (hc : c.isDigit = true)
    (hds : ∀ d ∈ ds, isDecimalPart d = true) (hrest : Stops isDecimalPart rest) :
    ∃ es rest' k, ds ++ rest = es ++ rest' ∧ Leads c es rest' k ∧ ds <+: es ∧
      k.isInteger = true := by
  by_cases hbased : ∀ tail, rest = '\x27' :: tail → StopsBased tail
  · exact ⟨ds, rest, _, rfl, .integer hc hds hrest hbased, List.prefix_refl ds, rfl⟩
  · simp only [Classical.not_forall] at hbased
    obtain ⟨more, rfl, hmore⟩ := hbased
    rcases exists_basedTail more with ⟨tail, rest, rfl, htail, hrest⟩ | h
    · exact ⟨ds ++ '\x27' :: tail, rest, _, by simp, .sized hc hds htail hrest,
        List.prefix_append ds _, rfl⟩
    · exact absurd h hmore

variable (cs : List Char)

theorem exists_leads_apostrophe : ∃ ds rest k, cs = ds ++ rest ∧ Leads '\x27' ds rest k := by
  rcases exists_basedTail cs with ⟨tail, rest, rfl, htail, hrest⟩ | h
  · exact ⟨tail, rest, _, rfl, .unsized htail hrest⟩
  · exact ⟨[], cs, _, rfl, .apostrophe h⟩

theorem exists_leads_quote : ∃ ds rest k, cs = ds ++ rest ∧ Leads '\x22' ds rest k := by
  obtain ⟨ds, rest, rfl, hds, hrest⟩ := exists_stringItems cs
  rcases starts_or_not '\x22' rest with ⟨rest, rfl⟩ | hquote
  · exact ⟨ds ++ ['\x22'], rest, _, by simp, .string hds⟩
  · exact ⟨ds, rest, _, rfl, .broken hds hrest hquote⟩

theorem exists_leads_backtick : ∃ ds rest k, cs = ds ++ rest ∧ Leads '\x60' ds rest k := by
  cases cs with
  | nil => exact ⟨[], [], _, rfl, .backtick stops_nil⟩
  | cons d cs =>
    cases hd : isWordStart d with
    | false => exact ⟨[], d :: cs, _, rfl, .backtick (stops_cons.2 hd)⟩
    | true =>
      obtain ⟨ds, rest, rfl, hds, hrest⟩ := exists_run isDirectivePart cs
      exact ⟨d :: ds, rest, _, rfl, .directive hd hds hrest⟩

theorem exists_leads_slash : ∃ ds rest k, cs = ds ++ rest ∧ Leads '/' ds rest k := by
  rcases starts_or_not '/' cs with ⟨cs, rfl⟩ | hslash
  · obtain ⟨ds, rest, rfl, hds, hrest⟩ := exists_run (!isLineEnd ·) cs
    exact ⟨'/' :: ds, rest, _, rfl, .comment hds hrest⟩
  · rcases starts_or_not '*' cs with ⟨cs, rfl⟩ | hstar
    · exact ⟨['*'], cs, _, rfl, .blockComment⟩
    · exact ⟨[], cs, _, rfl, .slash fun c hc => ⟨hslash c hc, hstar c hc⟩⟩

theorem exists_leads_colon : ∃ ds rest k, cs = ds ++ rest ∧ Leads ':' ds rest k := by
  rcases starts_or_not ':' cs with ⟨cs, rfl⟩ | hcolon
  · exact ⟨[':'], cs, _, rfl, .doubleColon⟩
  · exact ⟨[], cs, _, rfl, .colon hcolon⟩

end Exists

/-- Every text that is not empty starts with a lexeme. -/
theorem exists_leads (c : Char) (cs : List Char) :
    ∃ ds rest k, cs = ds ++ rest ∧ Leads c ds rest k := by
  by_cases hspace : isSpace c = true
  · obtain ⟨ds, rest, rfl, hds, hrest⟩ := exists_run isSpace cs
    exact ⟨ds, rest, _, rfl, .space hspace hds hrest⟩
  by_cases hword : isWordStart c = true
  · obtain ⟨ds, rest, rfl, hds, hrest⟩ := exists_run isWordPart cs
    exact ⟨ds, rest, _, rfl, .word hword hds hrest⟩
  by_cases hdigit : c.isDigit = true
  · obtain ⟨ds, rest, rfl, hds, hrest⟩ := exists_run isDecimalPart cs
    obtain ⟨es, rest', k, hcs, hleads, -⟩ := exists_leads_digit hdigit hds hrest
    exact ⟨es, rest', k, hcs, hleads⟩
  by_cases hopen : c ∈ ['\x27', '\x22', '\x60', '/', ':']
  · simp only [List.mem_cons, List.not_mem_nil, or_false] at hopen
    rcases hopen with rfl | rfl | rfl | rfl | rfl
    · exact exists_leads_apostrophe cs
    · exact exists_leads_quote cs
    · exact exists_leads_backtick cs
    · exact exists_leads_slash cs
    · exact exists_leads_colon cs
  · refine ⟨[], cs, _, rfl, .alone ⟨?_, ?_, ?_, hopen⟩⟩
    · exact Bool.not_eq_true _ ▸ hspace
    · exact Bool.not_eq_true _ ▸ hword
    · exact Bool.not_eq_true _ ▸ hdigit

/-- `leading` computes the first lexeme. -/
theorem leading_eq_iff {c : Char} {ds rest : List Char} {k : TokenKind} :
    leading c (ds ++ rest) = (k, ds.length) ↔ Leads c ds rest k := by
  refine ⟨fun h => ?_, leading_of_leads⟩
  obtain ⟨ds', rest', k', hcs, hleads⟩ := exists_leads c (ds ++ rest)
  have h' := leading_of_leads hleads
  rw [← hcs, h, Prod.mk.injEq] at h'
  obtain ⟨rfl, rfl⟩ := List.append_inj hcs h'.2
  rw [h'.1]
  exact hleads

end HdlModule
