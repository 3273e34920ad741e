import HdlModule.Interface.Basic
import HdlModule.Interface.Header

/-!
# The parameter list of a module

A parameter list stands in `#(` and `)`. Its declarations are separated by commas. A declaration
is a name, an equals sign and an integer literal with an optional sign; in front may stand
`parameter` with an optional data type, sign and range. A declaration without `parameter` has the
type of the one before it.

## Main definitions

* `declaredType`: the type behind `parameter`
* `readValue`: the value of a parameter
* `readParameter`, `readParameters`: one declaration, and the rest of a list
* `readParameterList`: the whole list, or nothing where no `#` stands
-/

namespace HdlModule

/-- The tokens up to the first closing bracket, itself included, and the tokens behind it. -/
def throughBracket : List Token → List Token × List Token
  | [] => ([], [])
  | t :: rest =>
    if t.kind = .rightBracket then ([t], rest)
    else (t :: (throughBracket rest).1, (throughBracket rest).2)

theorem length_snd_throughBracket_le (ts : List Token) :
    (throughBracket ts).2.length ≤ ts.length := by
  induction ts with
  | nil => simp [throughBracket]
  | cons t rest ih =>
    unfold throughBracket
    split
    · simp
    · exact Nat.le_succ_of_le ih

/-- The next token in lower case, if its kind is in the class, and the tokens behind it. -/
def takeKeyword (p : TokenKind → Bool) : List Token → List String × List Token
  | t :: rest => if p t.kind then ([t.text.toLower], rest) else ([], t :: rest)
  | [] => ([], [])

theorem length_snd_takeKeyword_le (p : TokenKind → Bool) (ts : List Token) :
    (takeKeyword p ts).2.length ≤ ts.length := by
  unfold takeKeyword
  split
  · split <;> simp
  · simp

/-- The range at the front of the tokens, written without blanks, and the tokens behind it. What
stands in the range is not read. -/
def takeRange : List Token → List String × List Token
  | t :: rest =>
    if t.kind = .leftBracket then
      let range := throughBracket rest
      ([String.join ((t :: range.1).map Token.text)], range.2)
    else ([], t :: rest)
  | [] => ([], [])

theorem length_snd_takeRange_le (ts : List Token) : (takeRange ts).2.length ≤ ts.length := by
  unfold takeRange
  split
  · split
    · exact Nat.le_succ_of_le (length_snd_throughBracket_le _)
    · simp
  · simp

/-- The type that stands behind `parameter`, its parts separated by spaces, and the tokens behind
it. Without any part there is no type. -/
def declaredType (ts : List Token) : Option String × List Token :=
  let type := takeKeyword TokenKind.isParameterType ts
  let sign := takeKeyword TokenKind.isSign type.2
  let range := takeRange sign.2
  let parts := type.1 ++ sign.1 ++ range.1
  (if parts = [] then none else some (" ".intercalate parts), range.2)

theorem length_snd_declaredType_le (ts : List Token) :
    (declaredType ts).2.length ≤ ts.length :=
  Nat.le_trans (length_snd_takeRange_le _)
    (Nat.le_trans (length_snd_takeKeyword_le _ _) (length_snd_takeKeyword_le _ _))

/-- The type of the next declaration. It is inherited where no `parameter` stands. -/
def nextType (inherited : Option String) : List Token → Option String × List Token
  | t :: rest => if t.kind = .keyword .parameter then declaredType rest else (inherited, t :: rest)
  | [] => (inherited, [])

/-- The sign in front of a value, if any, and the tokens behind it. -/
def takeSign : List Token → Option Token × List Token
  | t :: rest => if t.kind = .plus ∨ t.kind = .minus then (some t, rest) else (none, t :: rest)
  | [] => (none, [])

/-- A value with its sign. -/
def signedValue (sign? : Option Token) (value : Nat) : Int64 :=
  if sign?.map (·.kind) = some .minus then -Int64.ofNat value else Int64.ofNat value

/-- The literal that gives a parameter its value, behind a sign that has been read. A comma, a
closing parenthesis or the end of the text has to follow. -/
def readLiteral (parameter : String) (sign? : Option Token) :
    List Token → Except Fault (Int64 × List Token)
  | [] => .error (.unexpected (.parameterValue parameter) none)
  | literal :: rest =>
    if literal.kind.isInteger then
      match literalValue literal.chars with
      | .error fault => .error (.parameterLiteral parameter literal fault)
      | .ok value =>
        match rest with
        | [] => .ok (signedValue sign? value, [])
        | next :: rest =>
          if next.kind = .comma ∨ next.kind = .rightParen then
            .ok (signedValue sign? value, next :: rest)
          else .error (.valueContinues parameter (sign?.getD literal) next)
    else .error (.unexpected (.parameterValue parameter) (some literal))

/-- The value of a parameter: a literal with an optional sign. -/
def readValue (parameter : String) (ts : List Token) : Except Fault (Int64 × List Token) :=
  readLiteral parameter (takeSign ts).1 (takeSign ts).2

/-- One declaration of a parameter. -/
def readParameter (inherited : Option String) (ts : List Token) :
    Except Fault (Parameter × List Token) := do
  let type := nextType inherited ts
  let (name, ts) ← takeToken .identifier .parameterName type.2
  let (_, ts) ← takeToken .equals (.parameterEquals name.text) ts
  let (value, ts) ← readValue name.text ts
  return (⟨name.text, type.1, value⟩, ts)

/-! ### A declaration uses tokens up -/

theorem length_snd_nextType_le (inherited : Option String) (ts : List Token) :
    (nextType inherited ts).2.length ≤ ts.length := by
  unfold nextType
  split
  · split
    · exact Nat.le_succ_of_le (length_snd_declaredType_le _)
    · simp
  · simp

theorem length_snd_takeSign_le (ts : List Token) : (takeSign ts).2.length ≤ ts.length := by
  unfold takeSign
  split
  · split <;> simp
  · simp

theorem length_lt_of_readLiteral {parameter : String} {sign? : Option Token} {ts : List Token}
    {r : Int64 × List Token} (h : readLiteral parameter sign? ts = .ok r) :
    r.2.length < ts.length := by
  unfold readLiteral at h
  split at h
  · simp at h
  · split at h
    · split at h
      · simp at h
      · split at h
        · cases h
          simp
        · split at h
          · cases h
            simp
          · simp at h
    · simp at h

theorem length_lt_of_readParameter {inherited : Option String} {ts : List Token}
    {r : Parameter × List Token} (h : readParameter inherited ts = .ok r) :
    r.2.length < ts.length := by
  simp only [readParameter, bind_eq_ok] at h
  obtain ⟨⟨name, ts₁⟩, h₁, ⟨_, ts₂⟩, h₂, ⟨value, ts₃⟩, h₃, h₄⟩ := h
  have hle := length_snd_nextType_le inherited ts
  have hlt₁ := length_lt_of_takeToken h₁
  have hlt₂ := length_lt_of_takeToken h₂
  have hsign := length_snd_takeSign_le ts₂
  have hlt₃ := length_lt_of_readLiteral h₃
  cases h₄
  simp only at *
  omega

/-! ### The list -/

/-- The declarations up to the closing parenthesis, and the tokens behind it. `opener` is the
parenthesis that opens the list. -/
def readParameters (opener : Token) (inherited : Option String) (ts : List Token) :
    Except Fault (List Parameter × List Token) :=
  match _h : readParameter inherited ts with
  | .error fault => .error fault
  | .ok (_, []) => .error (.unclosed .parameters opener)
  | .ok (parameter, t :: rest) =>
    if t.kind = .comma then do
      let (parameters, rest) ← readParameters opener parameter.type? rest
      return (parameter :: parameters, rest)
    else if t.kind = .rightParen then .ok ([parameter], rest)
    else .error (.unexpected .parameterSeparator (some t))
termination_by ts.length
decreasing_by
  have := length_lt_of_readParameter _h
  simp only [List.length_cons] at this
  omega

/-- The parameter list of a module, if one is there, and the tokens behind it. The first
declaration inherits no type. -/
def readParameterList (ts : List Token) : Except Fault (List Parameter × List Token) :=
  match ts with
  | [] => .ok ([], [])
  | t :: rest =>
    if t.kind = .hash then do
      let (opener, rest) ← takeToken .leftParen .parameterList rest
      match rest with
      | [] => readParameters opener none []
      | t :: rest =>
        if t.kind = .rightParen then return ([], rest) else readParameters opener none (t :: rest)
    else .ok ([], t :: rest)

end HdlModule
