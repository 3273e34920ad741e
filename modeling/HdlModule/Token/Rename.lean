import HdlModule.Token.Basic

/-!
# Renaming a module in its text

A module is named behind the keyword that starts it, and may be named again behind the colon of
an end label. Renaming changes the old name at these places and nothing else; blanks, comments
and other uses of the name stay as they are. The old name is found whatever its ASCII case.

## Main definitions

* `NamePlace`: what the significant lexemes passed so far say about the next one
* `renameModule`: a text with the name of a module changed
-/

namespace HdlModule

/-- Where the next significant lexeme stands. -/
inductive NamePlace where
  | elsewhere
  /-- Behind the keyword that starts a module. -/
  | behindStart
  /-- Behind the keyword that ends a module. -/
  | behindEnd
  /-- Behind the colon of an end label. -/
  | behindLabelColon
deriving DecidableEq

namespace NamePlace

/-- Whether a module is named here. -/
def isNamed : NamePlace → Bool
  | behindStart | behindLabelColon => true
  | elsewhere | behindEnd => false

/-- The place behind a lexeme of a kind. Blanks and comments do not matter. -/
def next (place : NamePlace) (kind : TokenKind) : NamePlace :=
  if kind.isTrivia then place
  else
    match kind with
    | .keyword .moduleStart => behindStart
    | .keyword .moduleEnd => behindEnd
    | .colon => if place = behindEnd then behindLabelColon else elsewhere
    | _ => elsewhere

end NamePlace

/-- Whether two texts are equal but for the ASCII case of letters. -/
def equalIgnoringCase (cs ds : List Char) : Bool := cs.map Char.toLower == ds.map Char.toLower

/-- A lexeme with the new name where it is the old name at a place where a module is named. -/
def renameLexeme (old new : List Char) (place : NamePlace) (l : Lexeme) : Lexeme :=
  if place.isNamed && l.kind = .identifier && equalIgnoringCase l.chars old then
    { l with chars := new }
  else l

/-- The lexemes with the module renamed, the first one at a given place. -/
def renameLexemes (old new : List Char) (place : NamePlace) : List Lexeme → List Lexeme
  | [] => []
  | l :: ls => renameLexeme old new place l :: renameLexemes old new (place.next l.kind) ls

/-- The text with the module `old` renamed to `new`. -/
def renameModule (text old new : String) : String :=
  let renamed := renameLexemes old.toList new.toList .elsewhere (lexemes text.toList)
  String.ofList (renamed.flatMap Lexeme.chars)

end HdlModule
