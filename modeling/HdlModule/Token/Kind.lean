import HdlModule.Token.Keyword

/-!
# Kinds of tokens

Each token has a kind. Kinds fall into the classes by which a reader decides: blanks and
comments, words, integers, keywords that name a net or a data type.

## Main definitions

* `TokenKind`: the kinds
* `TokenKind.name`: the name of a kind in messages
* `TokenKind.isTrivia`, `TokenKind.isWord`, …: the classes
-/

namespace HdlModule

/-- The kind of a token. -/
inductive TokenKind where
  | whitespace
  | lineComment
  | identifier
  | integer
  | basedInteger
  | string
  | directive
  | leftParen
  | rightParen
  | leftBracket
  | rightBracket
  | leftBrace
  | rightBrace
  | semicolon
  | colon
  | doubleColon
  | comma
  | dot
  | equals
  | hash
  | plus
  | minus
  | star
  | slash
  | blockCommentStart
  | keyword (keyword : Keyword)
  | invalid
deriving DecidableEq

namespace TokenKind

/-- Whether tokens of this kind only separate other tokens. -/
def isTrivia : TokenKind → Bool
  | whitespace | lineComment => true
  | _ => false

/-- Whether this is the kind of a keyword. -/
def isKeyword : TokenKind → Bool
  | keyword _ => true
  | _ => false

/-- Whether this is the kind of an identifier or of a keyword. -/
def isWord : TokenKind → Bool
  | identifier | keyword _ => true
  | _ => false

/-- Whether this is a keyword for a kind of net. -/
def isNetKind : TokenKind → Bool
  | keyword (.net _) => true
  | _ => false

/-- Whether this is a keyword for a data type of parameters. -/
def isParameterType : TokenKind → Bool
  | keyword (.integerType _) | keyword (.net .reg) | keyword (.net .logic) => true
  | _ => false

/-- Whether this is a keyword for a sign. -/
def isSign : TokenKind → Bool
  | keyword (.sign _) => true
  | _ => false

/-- Whether this is the kind of an integer literal. -/
def isInteger : TokenKind → Bool
  | integer | basedInteger => true
  | _ => false

/-- The name of a kind in messages. -/
def name : TokenKind → String
  | whitespace => "whitespace"
  | lineComment => "comment"
  | identifier => "identifier"
  | integer => "integer"
  | basedInteger => "integer"
  | string => "string"
  | directive => "compiler directive"
  | leftParen => "'('"
  | rightParen => "')'"
  | leftBracket => "'['"
  | rightBracket => "']'"
  | leftBrace => "'\x7b'"
  | rightBrace => "'\x7d'"
  | semicolon => "';'"
  | colon => "':'"
  | doubleColon => "'::'"
  | comma => "','"
  | dot => "'.'"
  | equals => "'='"
  | hash => "'#'"
  | plus => "'+'"
  | minus => "'-'"
  | star => "'*'"
  | slash => "'/'"
  | blockCommentStart => "'/*'"
  | keyword k => "'" ++ k.text ++ "'"
  | invalid => "invalid token"

end TokenKind

end HdlModule
