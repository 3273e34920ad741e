import HdlModule.Interface.Fault

/-!
# The header of a module

A module starts with its keyword and a word, its name. A prototype, which has the keyword
`extern` in front, is passed over. Readers of tokens give back the tokens behind what they read.

## Main definitions

* `findHeader?`: the first header that defines a module
* `takeToken`: the next token, which has to be of a given kind
-/

namespace HdlModule

/-- The keyword and the name of the first module that is no prototype, and the tokens behind
them. `before` is the kind of the token in front. -/
def findHeader? (before : Option TokenKind) : List Token → Option (Token × Token × List Token)
  | start :: name :: rest =>
    if start.kind = .keyword .moduleStart ∧ name.kind.isWord ∧
        before ≠ some (.keyword .prototype) then
      some (start, name, rest)
    else findHeader? (some start.kind) (name :: rest)
  | _ => none

/-- The next token, if it is of the given kind, and the tokens behind it. -/
def takeToken (kind : TokenKind) (expected : Expectation) :
    List Token → Except Fault (Token × List Token)
  | t :: rest => if t.kind = kind then .ok (t, rest) else .error (.unexpected expected (some t))
  | [] => .error (.unexpected expected none)

theorem takeToken_eq_ok {kind : TokenKind} {expected : Expectation} {ts : List Token}
    {r : Token × List Token} :
    takeToken kind expected ts = .ok r ↔ ts = r.1 :: r.2 ∧ r.1.kind = kind := by
  obtain ⟨t, rest⟩ := r
  cases ts with
  | nil => simp [takeToken]
  | cons s tail =>
    by_cases hk : s.kind = kind
    · simp only [takeToken, hk, if_true, Except.ok.injEq, Prod.mk.injEq, List.cons.injEq]
      constructor
      · rintro ⟨rfl, rfl⟩
        exact ⟨⟨rfl, rfl⟩, hk⟩
      · exact fun h => h.1
    · simp only [takeToken, hk, if_false, List.cons.injEq, reduceCtorEq, false_iff]
      rintro ⟨⟨rfl, -⟩, h⟩
      exact hk h

theorem length_lt_of_takeToken {kind : TokenKind} {expected : Expectation} {ts : List Token}
    {r : Token × List Token} (h : takeToken kind expected ts = .ok r) :
    r.2.length < ts.length := by
  rw [(takeToken_eq_ok.1 h).1]
  exact Nat.lt_succ_self _

/-- A reading in two steps succeeds if both steps do. -/
theorem bind_eq_ok {ε α β : Type} {x : Except ε α} {f : α → Except ε β} {b : β} :
    (x >>= f) = .ok b ↔ ∃ a, x = .ok a ∧ f a = .ok b := by
  cases x <;> simp [bind, Except.bind]

end HdlModule
