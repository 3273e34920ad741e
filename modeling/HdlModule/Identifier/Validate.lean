import HdlModule.Identifier.Reserved

/-!
# Legal names

A name of a module or a parameter starts with a letter, goes on with letters, digits and
underscores, has no underscore at its end and no two in a row, and is no reserved word. Letters
and digits are those of ASCII.

## Main definitions

* `MalformedName`, `NameError`: why a name is refused
* `nameShape`: the first rule of the grammar that a name breaks
* `validateName`: the grammar and the reserved words together
-/

namespace HdlModule

/-- The rule of the grammar that a name breaks. -/
inductive MalformedName where
  | empty
  | leadingNonLetter
  | invalidCharacter (c : Char)
  | trailingUnderscore
  | doubleUnderscore
deriving DecidableEq

/-- The rule in words. -/
def MalformedName.message : MalformedName → String
  | .empty => "name is empty"
  | .leadingNonLetter => "name must start with a letter"
  | .invalidCharacter c => "invalid character '" ++ String.singleton c ++ "' in name"
  | .trailingUnderscore => "name must not end with '_'"
  | .doubleUnderscore => "name must not contain '__'"

/-- Why a name is refused. -/
inductive NameError where
  /-- The name breaks the grammar. -/
  | malformed (name : String) (reason : MalformedName)
  /-- The name is a reserved word; `keyword` is the word as it is shown. -/
  | reserved (name keyword : String)
  /-- Another module of the design has the name. -/
  | duplicate (name : String)
deriving DecidableEq

namespace NameError

/-- The refused name. -/
def name : NameError → String
  | malformed name _ => name
  | reserved name _ => name
  | duplicate name => name

/-- The message for a refused name. -/
def message : NameError → String
  | malformed name reason => name ++ ": " ++ reason.message
  | reserved name keyword => name ++ ": '" ++ keyword ++ "' is a reserved keyword"
  | duplicate name => name ++ ": a module with this name already exists"

end NameError

/-- Whether a character may stand behind the first letter of a name. -/
def isNameChar (c : Char) : Bool := c.isAlphanum || c == '_'

/-- Whether two underscores stand next to each other. -/
def hasDoubleUnderscore : List Char → Bool
  | c :: d :: cs => c == '_' && d == '_' || hasDoubleUnderscore (d :: cs)
  | _ => false

/-- The first rule of the grammar that a name breaks, if any. -/
def nameShape : List Char → Except MalformedName Unit
  | [] => .error .empty
  | c :: cs =>
    if !c.isAlpha then .error .leadingNonLetter
    else
      match cs.find? (!isNameChar ·) with
      | some bad => .error (.invalidCharacter bad)
      | none =>
        if (c :: cs).getLast? = some '_' then .error .trailingUnderscore
        else if hasDoubleUnderscore (c :: cs) then .error .doubleUnderscore
        else .ok ()

/-- Accepts the legal names. The case serves to show a reserved word in the message. -/
def validateName (shown : KeywordCase) (name : String) : Except NameError Unit :=
  match nameShape name.toList with
  | .error reason => .error (.malformed name reason)
  | .ok () => if isReserved name then .error (.reserved name (shown.apply name)) else .ok ()

end HdlModule
