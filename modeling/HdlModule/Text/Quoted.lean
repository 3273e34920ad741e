import HdlModule.Text.Printable

/-!
# Quoted text

A text between quotation marks. A quotation mark or a backslash in it has a backslash in front;
NUL, tab, LF and CR are written `\0`, `\t`, `\n` and `\r`; any other character that is not
printable is written as its code point in hexadecimal digits.

## Main definitions

* `quotedChar`: the written form of a character
* `quoted`: the written form of a text
-/

namespace HdlModule

/-- The written form of a character between quotation marks. -/
def quotedChar (c : Char) : List Char :=
  if c = '\x22' ∨ c = '\x5c' then ['\x5c', c]
  else if c = '\x00' then ['\x5c', '0']
  else if c = '\t' then ['\x5c', 't']
  else if c = '\n' then ['\x5c', 'n']
  else if c = '\r' then ['\x5c', 'r']
  else if isPrintable c then [c]
  else ['\x5c', 'u', '\x7b'] ++ Nat.toDigits 16 c.toNat ++ ['\x7d']

/-- The text between quotation marks. -/
def quoted (s : String) : String :=
  String.ofList ('\x22' :: s.toList.flatMap quotedChar ++ ['\x22'])

end HdlModule
