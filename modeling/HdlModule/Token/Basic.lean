import HdlModule.Text.Span
import HdlModule.Token.Lexeme

/-!
# Tokens of a text

A token is a lexeme with the byte offset at which it starts.

## Main definitions

* `Token`: a lexeme and its place; `Token.span` the bytes that it covers
* `tokens`: all tokens of a text
* `significantTokens`: the tokens without blanks and line comments

## Main results

* `flatMap_chars_tokens`: the tokens put together are the text
-/

namespace HdlModule

/-- A lexeme and the byte offset at which it starts. -/
structure Token extends Lexeme where
  start : Nat
deriving DecidableEq

namespace Token

/-- The characters of a token as a string. -/
def text (t : Token) : String := t.toLexeme.text

/-- The bytes that a token covers. -/
def span (t : Token) : Span := ⟨t.start, t.start + byteLength t.chars⟩

end Token

/-- The lexemes as tokens that follow each other from `offset` on. -/
def locate (offset : Nat) : List Lexeme → List Token
  | [] => []
  | l :: ls => ⟨l, offset⟩ :: locate (offset + byteLength l.chars) ls

@[simp]
theorem locate_nil (offset : Nat) : locate offset [] = [] := rfl

@[simp]
theorem locate_cons (offset : Nat) (l : Lexeme) (ls : List Lexeme) :
    locate offset (l :: ls) = ⟨l, offset⟩ :: locate (offset + byteLength l.chars) ls := rfl

/-- Placing lexemes changes nothing about them. -/
@[simp]
theorem map_toLexeme_locate (offset : Nat) (ls : List Lexeme) :
    (locate offset ls).map Token.toLexeme = ls := by
  induction ls generalizing offset with
  | nil => rfl
  | cons l ls ih => rw [locate_cons, List.map_cons, ih]

/-- The tokens of a text. -/
def tokens (text : String) : List Token := locate 0 (lexemes text.toList)

/-- The tokens of a text without blanks and line comments. -/
def significantTokens (text : String) : List Token :=
  (tokens text).filter fun t => !t.kind.isTrivia

/-- The tokens without blanks and line comments are the lexemes without them, in their places. -/
theorem map_toLexeme_significantTokens (text : String) :
    (significantTokens text).map Token.toLexeme =
      (lexemes text.toList).filter fun l => !l.kind.isTrivia := by
  have h := congrArg (List.filter fun l => !l.kind.isTrivia)
    (map_toLexeme_locate 0 (lexemes text.toList))
  rw [List.filter_map] at h
  exact h

/-- The tokens put together are the text. -/
theorem flatMap_chars_tokens (text : String) :
    (tokens text).flatMap (·.chars) = text.toList := by
  have h := flatMap_chars_lexemes text.toList
  rw [← map_toLexeme_locate 0 (lexemes text.toList), List.flatMap_map] at h
  exact h

end HdlModule
