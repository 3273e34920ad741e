import HdlModule.Search
import HdlModule.Text.Replace
import HdlModule.Text.Span

/-!
# Lines of a text

A line ends at CR LF, at a CR that no LF follows, or at an LF. A `LineIndex` keeps where the
lines start and turns byte offsets into lines and columns, by a binary search; `joinLines` writes
a space for each terminator, so that texts can be compared whatever their line endings.

## Main definitions

* `lineBreaks`: the offsets behind the line terminators
* `LineIndex.position`: the line and column of an offset, both counted from 0
* `joinLines`: the lines of a text, a space between two of them
-/

namespace HdlModule

/-- A line and a column of bytes within it, both counted from 0. -/
structure Position where
  line : Nat
  column : Nat
deriving DecidableEq

/-- The offsets behind the line terminators of a text whose first byte is at `offset`. -/
def lineBreaks (offset : Nat) : List Char → List Nat
  | [] => []
  | '\r' :: '\n' :: cs => (offset + 2) :: lineBreaks (offset + 2) cs
  | c :: cs =>
    if c = '\r' ∨ c = '\n' then (offset + 1) :: lineBreaks (offset + 1) cs
    else lineBreaks (offset + c.utf8Size) cs

/-! ### The index -/

/-- Where the lines of a text start, and its size in bytes. -/
structure LineIndex where
  starts : Array Nat
  size : Nat

namespace LineIndex

/-- The line index of a text. The first line starts at 0, and each other one behind a line
terminator. -/
def ofText (text : String) : LineIndex :=
  ⟨(0 :: lineBreaks 0 text.toList).toArray, byteLength text.toList⟩

/-- The number of lines. -/
def lineCount (index : LineIndex) : Nat := index.starts.size

/-- The line that holds an offset: the one that starts there, or else the one in front of the place
where a line that starts there would stand. -/
def lineAt (index : LineIndex) (offset : Nat) : Nat :=
  match binarySearch index.starts offset with
  | .ok line => line
  | .error next => next - 1

/-- The line and column of an offset. An offset behind the end counts as the end. -/
def position (index : LineIndex) (offset : Nat) : Position :=
  let offset := min offset index.size
  let line := index.lineAt offset
  ⟨line, offset - index.starts.getD line 0⟩

end LineIndex

/-! ### Comparing texts -/

/-- The text with a space for each CR LF, and then for each CR and each LF that is left. -/
def joinLines (cs : List Char) : List Char :=
  (replaceAll ['\r', '\n'] [' '] cs).map fun c => if c = '\r' ∨ c = '\n' then ' ' else c

end HdlModule
