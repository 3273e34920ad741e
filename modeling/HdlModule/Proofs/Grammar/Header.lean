import HdlModule.Interface.Header

/-!
# Headers by what stands in the text

A module has its header at the first place where the keyword of a module stands in front of a
word and no `extern` stands in front of the keyword. The search for a header passes over the
tokens one by one; the place that it finds is described here without the search, by the kinds of
the tokens alone.

## Main definitions

* `FirstHeader before kinds i`: the first header among tokens of these kinds is at `i`
* `NextNot p ts`: the next token is of no kind in the class
* `IntegerLiteral l n`, `OptionalKeyword p ls parts`: the parts that both lists of a header have

## Main results

* `findHeader?_eq_some_iff`: the search finds the first header
-/

namespace HdlModule

/-! ### The place of a header -/

/-- The kind in front of a place, where `before` is the kind in front of all. -/
def kindBefore (before : Option TokenKind) (kinds : List TokenKind) : Nat → Option TokenKind
  | 0 => before
  | i + 1 => kinds[i]?

/-- A header that is no prototype stands at a place. -/
def HeaderAt (before : Option TokenKind) (kinds : List TokenKind) (i : Nat) : Prop :=
  kinds[i]? = some (.keyword .moduleStart) ∧
    (∃ k, kinds[i + 1]? = some k ∧ k.isWord = true) ∧
    kindBefore before kinds i ≠ some (.keyword .prototype)

/-- The first header that is no prototype stands at a place. -/
def FirstHeader (before : Option TokenKind) (kinds : List TokenKind) (i : Nat) : Prop :=
  HeaderAt before kinds i ∧ ∀ j < i, ¬ HeaderAt before kinds j

section Header

variable {before : Option TokenKind} {k k' : TokenKind} {kinds : List TokenKind}

theorem headerAt_cons_zero :
    HeaderAt before (k :: k' :: kinds) 0 ↔
      k = .keyword .moduleStart ∧ k'.isWord = true ∧ before ≠ some (.keyword .prototype) := by
  simp [HeaderAt, kindBefore]

theorem headerAt_cons_succ {i : Nat} :
    HeaderAt before (k :: kinds) (i + 1) ↔ HeaderAt (some k) kinds i := by
  cases i <;> simp [HeaderAt, kindBefore]

theorem firstHeader_zero : FirstHeader before kinds 0 ↔ HeaderAt before kinds 0 := by
  simp [FirstHeader]

theorem firstHeader_cons_succ {i : Nat} :
    FirstHeader before (k :: kinds) (i + 1) ↔
      ¬ HeaderAt before (k :: kinds) 0 ∧ FirstHeader (some k) kinds i := by
  unfold FirstHeader
  rw [headerAt_cons_succ]
  constructor
  · rintro ⟨hat, hfirst⟩
    refine ⟨hfirst 0 (Nat.succ_pos i), hat, fun j hj hj' => ?_⟩
    exact hfirst (j + 1) (Nat.succ_lt_succ hj) (headerAt_cons_succ.2 hj')
  · rintro ⟨hzero, hat, hfirst⟩
    refine ⟨hat, fun j hj => ?_⟩
    cases j with
    | zero => exact hzero
    | succ j =>
      rw [headerAt_cons_succ]
      exact hfirst j (Nat.lt_of_succ_lt_succ hj)

end Header

/-! ### The search -/

section Search

variable {before : Option TokenKind} {start name : Token} {rest ts : List Token}

/-- The header that is found stands at the first place that has one. -/
theorem firstHeader_of_findHeader? (h : findHeader? before ts = some (start, name, rest)) :
    ∃ pre, ts = pre ++ start :: name :: rest ∧
      FirstHeader before (ts.map (·.kind)) pre.length := by
  fun_induction findHeader? before ts with
  | case1 before start' name' rest' hat =>
    cases h
    exact ⟨[], rfl, firstHeader_zero.2 (headerAt_cons_zero.2 hat)⟩
  | case2 before start' name' rest' hat ih =>
    obtain ⟨pre, hts, hfirst⟩ := ih h
    refine ⟨start' :: pre, by rw [hts, List.cons_append], ?_⟩
    rw [List.length_cons, List.map_cons, firstHeader_cons_succ]
    exact ⟨fun hzero => hat (headerAt_cons_zero.1 hzero), hfirst⟩
  | case3 => cases h

/-- The first place that has a header is found. -/
theorem findHeader?_of_firstHeader {pre : List Token} (hts : ts = pre ++ start :: name :: rest)
    (h : FirstHeader before (ts.map (·.kind)) pre.length) :
    findHeader? before ts = some (start, name, rest) := by
  fun_induction findHeader? before ts generalizing pre with
  | case1 before start' name' rest' hat =>
    cases pre with
    | nil =>
      cases hts
      rfl
    | cons t pre =>
      exact absurd (headerAt_cons_zero.2 hat) (h.2 0 (Nat.succ_pos _))
  | case2 before start' name' rest' hat ih =>
    cases pre with
    | nil =>
      rw [List.length_nil, firstHeader_zero] at h
      exact absurd (headerAt_cons_zero.1 h) hat
    | cons t pre =>
      obtain ⟨rfl, htail⟩ := List.cons.inj hts
      rw [List.map_cons, List.length_cons, firstHeader_cons_succ] at h
      exact ih htail h.2
  | case3 ts before hshort =>
    -- a header has two tokens, whatever stands in front of it
    rcases pre with _ | ⟨t, _ | ⟨t', pre⟩⟩
    · exact absurd hts (hshort _ _ _)
    · exact absurd hts (hshort _ _ _)
    · exact absurd hts (hshort _ _ _)

/-- **The search finds the first header** that is no prototype. -/
theorem findHeader?_eq_some_iff :
    findHeader? before ts = some (start, name, rest) ↔
      ∃ pre, ts = pre ++ start :: name :: rest ∧
        FirstHeader before (ts.map (·.kind)) pre.length := by
  refine ⟨firstHeader_of_findHeader?, ?_⟩
  rintro ⟨pre, hts, hfirst⟩
  exact findHeader?_of_firstHeader hts hfirst

/-- A header that is found is the keyword of a module and a word. -/
theorem kinds_of_findHeader? (h : findHeader? before ts = some (start, name, rest)) :
    start.kind = .keyword .moduleStart ∧ name.kind.isWord = true := by
  fun_induction findHeader? before ts with
  | case1 before start' name' rest' hat =>
    cases h
    exact ⟨hat.1, hat.2.1⟩
  | case2 before start' name' rest' hat ih => exact ih h
  | case3 => cases h

end Search

/-! ### The next token -/

section NextNot

variable {p : TokenKind → Bool} {t : Token} {ts rest : List Token}

/-- The next token, if there is one, is of no kind in the class. -/
def NextNot (p : TokenKind → Bool) (ts : List Token) : Prop := ∀ t ∈ ts.head?, p t.kind = false

@[simp]
theorem nextNot_nil : NextNot p [] := by simp [NextNot]

@[simp]
theorem nextNot_cons : NextNot p (t :: ts) ↔ p t.kind = false := by simp [NextNot]

theorem NextNot.append (hts : NextNot p ts) (hrest : NextNot p rest) :
    NextNot p (ts ++ rest) := by
  cases ts with
  | nil => exact hrest
  | cons t ts => exact nextNot_cons.2 (nextNot_cons.1 hts)

end NextNot

/-! ### Parts that both lists have -/

theorem exists_sign_of_isSign {k : TokenKind} (hk : k.isSign = true) :
    ∃ sign, k = .keyword (.sign sign) := by
  unfold TokenKind.isSign at hk
  split at hk
  · exact ⟨_, rfl⟩
  · cases hk

/-- The lexeme is an integer literal with a value. -/
def IntegerLiteral (l : Lexeme) (n : Nat) : Prop :=
  l.kind.isInteger = true ∧ literalValue l.chars = .ok n

/-- A keyword of a class, which may be missing. In a type it is written in lower case. -/
inductive OptionalKeyword (p : TokenKind → Bool) : List Lexeme → List String → Prop
  | absent : OptionalKeyword p [] []
  | present {l : Lexeme} (hl : p l.kind = true) : OptionalKeyword p [l] [l.text.toLower]

/-- An optional keyword starts with no kind of a class that has no kind in common with its own. -/
theorem OptionalKeyword.nextNot {p q : TokenKind → Bool} {ls : List Lexeme}
    {parts : List String} {used : List Token} (h : OptionalKeyword p ls parts)
    (hls : used.map Token.toLexeme = ls) (hpq : ∀ k, p k = true → q k = false) :
    NextNot q used := by
  cases h with
  | absent =>
    obtain rfl := List.map_eq_nil_iff.1 hls
    exact nextNot_nil
  | present hl =>
    obtain ⟨t, rfl, rfl⟩ := List.map_eq_singleton_iff.1 hls
    exact nextNot_cons.2 (hpq _ hl)

end HdlModule
