import HdlModule.Interface.Basic
import HdlModule.Interface.Header

/-!
# The port list of a module

A port list stands in parentheses. Its declarations are separated by commas or semicolons. A
declaration is a direction, then optionally a kind of net, a sign and a range, then names. A
comma with an identifier behind it goes on with the names; any other comma ends the declaration.

## Main definitions

* `readRange`: the width that a range stands for
* `readPortHead`, `readPortNames`: the two parts of a declaration
* `readPorts`: the rest of a list
* `readPortList`: the whole list
-/

namespace HdlModule

/-- A bound of a range: an integer literal. -/
def readBound : List Token → Except Fault (Nat × List Token)
  | [] => .error (.unexpected .rangeBound none)
  | literal :: rest =>
    if literal.kind.isInteger then
      match literalValue literal.chars with
      | .error fault => .error (.boundLiteral literal fault)
      | .ok value => .ok (value, rest)
    else .error (.unexpected .rangeBound (some literal))

/-- The width of a range. The high bound comes first, and both bounds belong to the range. -/
def rangeWidth (opener closer : Token) (high low : Nat) : Except Fault Width :=
  if high < low then .error (.ascendingRange opener closer high low)
  else
    match Width.ofBits? (high - low + 1) with
    | some width => .ok width
    | none => .error (.wideRange opener closer high low)

/-- The width at the front of the tokens: that of a range, or one bit without a range. -/
def readRange : List Token → Except Fault (Width × List Token)
  | [] => .ok (.one, [])
  | opener :: rest =>
    if opener.kind = .leftBracket then do
      let (high, rest) ← readBound rest
      let (_, rest) ← takeToken .colon .rangeColon rest
      let (low, rest) ← readBound rest
      let (closer, rest) ← takeToken .rightBracket .rangeClose rest
      let width ← rangeWidth opener closer high low
      return (width, rest)
    else .ok (.one, opener :: rest)

/-- What a declaration says about all of its ports. -/
structure PortHead where
  direction : Direction
  net : NetKind
  width : Width
deriving DecidableEq

/-- A port of a declaration. -/
def PortHead.port (head : PortHead) (name : String) : Port :=
  ⟨name, head.direction, head.net, head.width⟩

/-- The kind of net at the front of the tokens, `wire` where none stands. -/
def takeNet : List Token → NetKind × List Token
  | t :: rest =>
    match t.kind with
    | .keyword (.net net) => (net, rest)
    | _ => (.wire, t :: rest)
  | [] => (.wire, [])

/-- The tokens behind a sign, if one is there. -/
def skipSign : List Token → List Token
  | t :: rest => if t.kind.isSign then rest else t :: rest
  | [] => []

/-- Refuses a data type at the front of the tokens. -/
def refuseType (direction : Direction) : List Token → Except Fault Unit
  | t :: _ =>
    if t.kind.isParameterType then .error (.unexpected (.portType direction) (some t)) else .ok ()
  | [] => .ok ()

/-- The part of a declaration in front of the names. `opener` is the parenthesis that opens the
list. -/
def readPortHead (opener : Token) : List Token → Except Fault (PortHead × List Token)
  | [] => .error (.unclosed .ports opener)
  | t :: rest =>
    match t.kind with
    | .keyword (.direction direction) => do
      let net := takeNet rest
      let typed := skipSign net.2
      refuseType direction typed
      let (width, rest) ← readRange typed
      return (⟨direction, net.1, width⟩, rest)
    | _ => .error (.unexpected .portDirection (some t))

/-- The names of a declaration. They go on behind a comma that an identifier follows. -/
def readPortNames (direction : Direction) : List Token → Except Fault (List String × List Token)
  | [] => .error (.unexpected (.portName direction) none)
  | [t] =>
    if t.kind = .identifier then .ok ([t.text], [])
    else .error (.unexpected (.portName direction) (some t))
  | [t, t'] =>
    if t.kind = .identifier then .ok ([t.text], [t'])
    else .error (.unexpected (.portName direction) (some t))
  | t :: separator :: next :: rest =>
    if t.kind = .identifier then
      if separator.kind = .comma ∧ next.kind = .identifier then do
        let (names, rest) ← readPortNames direction (next :: rest)
        return (t.text :: names, rest)
      else .ok ([t.text], separator :: next :: rest)
    else .error (.unexpected (.portName direction) (some t))

/-- The ports of one declaration. -/
def readPortDeclaration (opener : Token) (ts : List Token) :
    Except Fault (List Port × List Token) := do
  let (head, ts) ← readPortHead opener ts
  let (names, ts) ← readPortNames head.direction ts
  return (names.map head.port, ts)

/-! ### A declaration uses tokens up -/

theorem length_lt_of_readBound {ts : List Token} {r : Nat × List Token}
    (h : readBound ts = .ok r) : r.2.length < ts.length := by
  unfold readBound at h
  split at h
  · simp at h
  · split at h
    · split at h
      · simp at h
      · cases h
        simp
    · simp at h

theorem length_le_of_readRange {ts : List Token} {r : Width × List Token}
    (h : readRange ts = .ok r) : r.2.length ≤ ts.length := by
  unfold readRange at h
  split at h
  · cases h
    simp
  · split at h
    · simp only [bind_eq_ok] at h
      obtain ⟨⟨high, ts₁⟩, h₁, ⟨_, ts₂⟩, h₂, ⟨low, ts₃⟩, h₃, ⟨_, ts₄⟩, h₄, width, -, h₅⟩ := h
      have hlt₁ := length_lt_of_readBound h₁
      have hlt₂ := length_lt_of_takeToken h₂
      have hlt₃ := length_lt_of_readBound h₃
      have hlt₄ := length_lt_of_takeToken h₄
      cases h₅
      simp only [List.length_cons] at *
      omega
    · cases h
      simp

theorem length_snd_takeNet_le (ts : List Token) : (takeNet ts).2.length ≤ ts.length := by
  unfold takeNet
  split
  · split <;> simp
  · simp

theorem length_skipSign_le (ts : List Token) : (skipSign ts).length ≤ ts.length := by
  unfold skipSign
  split
  · split <;> simp
  · simp

theorem length_lt_of_readPortHead {opener : Token} {ts : List Token}
    {r : PortHead × List Token} (h : readPortHead opener ts = .ok r) :
    r.2.length < ts.length := by
  unfold readPortHead at h
  split at h
  · simp at h
  · next t rest =>
    split at h
    · simp only [bind_eq_ok] at h
      obtain ⟨_, -, ⟨width, ts₁⟩, h₁, h₂⟩ := h
      have hle := length_le_of_readRange h₁
      have hnet := length_snd_takeNet_le rest
      have hsign := length_skipSign_le (takeNet rest).2
      cases h₂
      simp only [List.length_cons] at hle ⊢
      omega
    · simp at h

theorem length_lt_of_readPortNames {direction : Direction} {ts : List Token}
    {r : List String × List Token} (h : readPortNames direction ts = .ok r) :
    r.2.length < ts.length := by
  fun_induction readPortNames direction ts generalizing r with
  | case1 => simp at h
  | case2 => cases h; simp
  | case3 => simp at h
  | case4 => cases h; simp
  | case5 => simp at h
  | case6 t separator next rest _ _ ih =>
    simp only [bind_eq_ok] at h
    obtain ⟨⟨names, ts₁⟩, h₁, h₂⟩ := h
    have hlt := ih h₁
    cases h₂
    simp only [List.length_cons] at hlt ⊢
    omega
  | case7 => cases h; simp
  | case8 => simp at h

theorem length_lt_of_readPortDeclaration {opener : Token} {ts : List Token}
    {r : List Port × List Token} (h : readPortDeclaration opener ts = .ok r) :
    r.2.length < ts.length := by
  simp only [readPortDeclaration, bind_eq_ok] at h
  obtain ⟨⟨head, ts₁⟩, h₁, ⟨names, ts₂⟩, h₂, h₃⟩ := h
  have hlt₁ := length_lt_of_readPortHead h₁
  have hlt₂ := length_lt_of_readPortNames h₂
  cases h₃
  exact Nat.lt_trans hlt₂ hlt₁

/-! ### The list -/

/-- The declarations up to the closing parenthesis, and the tokens behind it. -/
def readPorts (opener : Token) (ts : List Token) : Except Fault (List Port × List Token) :=
  match _h : readPortDeclaration opener ts with
  | .error fault => .error fault
  | .ok (_, []) => .error (.unclosed .ports opener)
  | .ok (ports, t :: rest) =>
    if t.kind = .comma ∨ t.kind = .semicolon then do
      let (more, rest) ← readPorts opener rest
      return (ports ++ more, rest)
    else if t.kind = .rightParen then .ok (ports, rest)
    else .error (.unexpected .portSeparator (some t))
termination_by ts.length
decreasing_by
  have := length_lt_of_readPortDeclaration _h
  simp only [List.length_cons] at this
  omega

/-- The port list of the module with the given name, and the tokens behind it. -/
def readPortList (name : String) (ts : List Token) : Except Fault (List Port × List Token) := do
  let (opener, ts) ← takeToken .leftParen (.portList name) ts
  match ts with
  | [] => readPorts opener []
  | t :: rest => if t.kind = .rightParen then return ([], rest) else readPorts opener (t :: rest)

end HdlModule
