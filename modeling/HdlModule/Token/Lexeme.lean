import HdlModule.Token.Kind

/-!
# Lexemes of a text

A text falls into lexemes, pieces that each have a kind. At every place the longest piece that
some kind admits is taken. The first character decides which kinds come into question, so the
piece is found by looking at that character and running over what follows. A character that
starts no piece is an invalid lexeme of its own; at a quotation mark that opens no string the
invalid lexeme covers also the string items up to where the string breaks off.

## Main definitions

* `Lexeme`: a kind and the characters of the piece
* `leading`: the kind of the first piece, and how far it reaches behind its first character
* `lexemes`: the pieces of a text, in order

## Main results

* `flatMap_chars_lexemes`: the pieces put together are the text
-/

namespace HdlModule

/-! ### Character classes -/

/-- Blanks between tokens: space, tab, CR, LF and form feed. -/
def isSpace (c : Char) : Bool := c == ' ' || c == '\t' || c == '\r' || c == '\n' || c == '\x0c'

/-- Characters that end a line comment and break a string off. -/
def isLineEnd (c : Char) : Bool := c == '\r' || c == '\n'

/-- Characters that a word starts with. -/
def isWordStart (c : Char) : Bool := c.isAlpha || c == '_'

/-- Characters that a compiler directive goes on with. -/
def isDirectivePart (c : Char) : Bool := c.isAlphanum || c == '_'

/-- Characters that a word goes on with. -/
def isWordPart (c : Char) : Bool := isDirectivePart c || c == '$'

/-- Characters that a decimal literal goes on with. -/
def isDecimalPart (c : Char) : Bool := c.isDigit || c == '_'

/-- Digits of a based literal, unknown bits among them. -/
def isBasedDigit (c : Char) : Bool :=
  isDecimalPart c || c == '?' || "abcdefxz".toList.contains c.toLower

/-- Letters that name the base of a based literal. -/
def isBaseLetter (c : Char) : Bool := "bodh".toList.contains c.toLower

/-- Letters that mark a based literal as signed. -/
def isSignLetter (c : Char) : Bool := c.toLower == 's'

/-! ### How far a lexeme reaches -/

/-- How many characters of the class stand in front. -/
def runLength (p : Char → Bool) (cs : List Char) : Nat := (cs.takeWhile p).length

/-- The length of a base letter with the digits that follow it, if there is at least one. -/
def baseAndDigits? : List Char → Option Nat
  | base :: digit :: cs =>
    if isBaseLetter base && isBasedDigit digit then some (2 + runLength isBasedDigit cs) else none
  | _ => none

/-- The length of what follows the apostrophe of a based literal: sign letter, base, digits. -/
def basedTail? : List Char → Option Nat
  | [] => none
  | c :: cs =>
    if isSignLetter c then (baseAndDigits? cs).map (· + 1) else baseAndDigits? (c :: cs)

/-- How far the items of a string reach. An item is a character other than a quotation mark, a
backslash or a line end, or a backslash with any character but LF. -/
def stringItems : List Char → Nat
  | [] => 0
  | '\x5c' :: c :: cs => if c = '\n' then 0 else stringItems cs + 2
  | c :: cs => if c = '\x22' ∨ c = '\x5c' ∨ isLineEnd c then 0 else stringItems cs + 1

/-- The kind of a word: the keyword that it spells, or an identifier. -/
def wordKind (word : List Char) : TokenKind :=
  match Keyword.ofWord? word with
  | some k => .keyword k
  | none => .identifier

/-- The literal behind a first digit: decimal, or based with a size in front. -/
def numberTail (cs : List Char) : TokenKind × Nat :=
  let size := runLength isDecimalPart cs
  match cs.drop size with
  | '\x27' :: rest =>
    match basedTail? rest with
    | some n => (.basedInteger, size + 1 + n)
    | none => (.integer, size)
  | _ => (.integer, size)

/-- What an apostrophe opens: a based literal without a size, or nothing. -/
def apostropheTail (cs : List Char) : TokenKind × Nat :=
  match basedTail? cs with
  | some n => (.basedInteger, n)
  | none => (.invalid, 0)

/-- What a quotation mark opens: a string, or an invalid lexeme that reaches to the break. -/
def quoteTail (cs : List Char) : TokenKind × Nat :=
  let items := stringItems cs
  match cs.drop items with
  | '\x22' :: _ => (.string, items + 1)
  | _ => (.invalid, items)

/-- What a backtick opens: a compiler directive, or nothing. -/
def backtickTail : List Char → TokenKind × Nat
  | c :: cs =>
    if isWordStart c then (.directive, 1 + runLength isDirectivePart cs) else (.invalid, 0)
  | [] => (.invalid, 0)

/-- What a slash opens: a line comment, the start of a block comment, or itself. -/
def slashTail : List Char → TokenKind × Nat
  | '/' :: cs => (.lineComment, 1 + runLength (!isLineEnd ·) cs)
  | '*' :: _ => (.blockCommentStart, 1)
  | _ => (.slash, 0)

/-- What a colon opens: a double colon or itself. -/
def colonTail : List Char → TokenKind × Nat
  | ':' :: _ => (.doubleColon, 1)
  | _ => (.colon, 0)

/-- The kind of a punctuation character that stands alone. -/
def punctuation (c : Char) : TokenKind :=
  match c with
  | '(' => .leftParen
  | ')' => .rightParen
  | '[' => .leftBracket
  | ']' => .rightBracket
  | '\x7b' => .leftBrace
  | '\x7d' => .rightBrace
  | ';' => .semicolon
  | ',' => .comma
  | '.' => .dot
  | '=' => .equals
  | '#' => .hash
  | '+' => .plus
  | '-' => .minus
  | '*' => .star
  | _ => .invalid

/-- The kind of the lexeme that starts with `c`, and the number of characters of `cs`, the text
behind `c`, that belong to it. -/
def leading (c : Char) (cs : List Char) : TokenKind × Nat :=
  if isSpace c then (.whitespace, runLength isSpace cs)
  else if isWordStart c then
    let n := runLength isWordPart cs
    (wordKind (c :: cs.take n), n)
  else if c.isDigit then numberTail cs
  else if c = '\x27' then apostropheTail cs
  else if c = '\x22' then quoteTail cs
  else if c = '\x60' then backtickTail cs
  else if c = '/' then slashTail cs
  else if c = ':' then colonTail cs
  else (punctuation c, 0)

/-! ### The lexemes of a text -/

/-- A piece of a text with its kind. -/
structure Lexeme where
  kind : TokenKind
  chars : List Char
deriving DecidableEq

/-- The characters of a lexeme as a string. -/
def Lexeme.text (l : Lexeme) : String := String.ofList l.chars

/-- The lexemes of a text, in order. -/
def lexemes : List Char → List Lexeme
  | [] => []
  | c :: cs =>
    let found := leading c cs
    ⟨found.1, c :: cs.take found.2⟩ :: lexemes (cs.drop found.2)
termination_by cs => cs.length
decreasing_by simp only [List.length_drop, List.length_cons]; omega

@[simp]
theorem lexemes_nil : lexemes [] = [] := by rw [lexemes]

theorem lexemes_cons (c : Char) (cs : List Char) :
    lexemes (c :: cs) = ⟨(leading c cs).1, c :: cs.take (leading c cs).2⟩ ::
      lexemes (cs.drop (leading c cs).2) := by
  rw [lexemes]

/-- The lexemes put together are the text. -/
theorem flatMap_chars_lexemes (cs : List Char) : (lexemes cs).flatMap Lexeme.chars = cs := by
  fun_induction lexemes cs with
  | case1 => rfl
  | case2 c cs found ih => simp [ih]

end HdlModule
