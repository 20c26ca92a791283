import RakuAtlas.Text.Chars
import RakuAtlas.Text.Position

/-!
# RakuAtlas.Text.Lines — cutting a text into lines

Lines end at a newline, and one carriage return before it is not part of the
line. A trailing newline starts one more, empty line.

There are two views of the lines of a text, and they agree: `lines` gives
their characters, `LineIndex` the byte offsets at which they start. The
index converts between offsets and positions. Offsets are numbers of 32 bits,
which matters for columns far beyond the end of a text (`Build`).
-/

namespace RakuAtlas.Text

/-- A line: its characters, without the line end. -/
abbrev Line := List Char

/-- Drop one carriage return at the end. -/
def dropReturn (cs : List Char) : List Char :=
  if cs.getLast? = some '\r' then cs.dropLast else cs

/-- The lines of a text given by its characters. -/
def linesOf (cs : List Char) : List Line := (splitWhen (· == '\n') cs).map dropReturn

/-- The lines of a text. -/
def lines (text : String) : List Line := linesOf text.toList

/-! ## Line starts -/

/-- Where the lines of a text start, in bytes, and how long the text is. -/
structure LineIndex where
  starts : List Nat
  length : Nat
deriving DecidableEq, Repr

namespace LineIndex

/-- The offsets just after each newline, for characters that start at `offset`. -/
def startsAfter (offset : Nat) : List Char → List Nat
  | [] => []
  | c :: cs =>
    let next := offset + c.utf8Size
    if c = '\n' then next :: startsAfter next cs else startsAfter next cs

/-- The line index of a text. -/
def ofText (text : String) : LineIndex :=
  ⟨0 :: startsAfter 0 text.toList, byteLen text.toList⟩

/-- The number of lines. -/
def size (index : LineIndex) : Nat := index.starts.length

/-- Whether the text has no characters. -/
def isEmpty (index : LineIndex) : Bool := index.length == 0

/-- The line and column of a byte offset. An offset past the end counts as on
the last line. -/
def position (index : LineIndex) (offset : Nat) : Pos :=
  let line := (index.starts.takeWhile (· ≤ offset)).length - 1
  ⟨line, offset - (index.starts[line]?).getD 0⟩

/-- The byte offset of a position, if the text has that line. The column is
not checked against the line's length, nor the offset for its size (see
`offsetIn?`). -/
def offset? (index : LineIndex) (p : Pos) : Option Nat :=
  (index.starts[p.line]?).map (· + p.col)

/-- The characters of a line, read out of `text` at the offsets of this
index. -/
def lineIn? (index : LineIndex) (text : String) (line : Nat) : Option Line := do
  let start ← index.starts[line]?
  let stop := match index.starts[line + 1]? with
    | some next => next - 1
    | none => index.length
  let front ← slice? start stop text.toList
  return dropReturn front

end LineIndex

/-! ## Offsets in 32 bits -/

/-- The numbers below this have 32 bits. -/
def offsetLimit : Nat := 4294967296

/-- How the program was built: to stop when the sum of two numbers is too large for 32 bits, or to
go on with the low bits of it. -/
inductive Build where
  | checked
  | unchecked
deriving DecidableEq, Repr

/-- The sum of two numbers in 32 bits. `none`: the program stops. -/
def Build.add? (build : Build) (a b : Nat) : Option Nat :=
  if a + b < offsetLimit then some (a + b)
  else match build with
    | .checked => none
    | .unchecked => some ((a + b) % offsetLimit)

/-- No build stops at a sum that fits, or changes it. -/
theorem Build.add?_of_lt {a b : Nat} (h : a + b < offsetLimit) (build : Build) :
    build.add? a b = some (a + b) := if_pos h

namespace LineIndex

/-- The line index of a text, if its offsets fit into 32 bits. The program stops at a longer
text. -/
def ofTextIn? (text : String) : Option LineIndex :=
  if byteLen text.toList < offsetLimit then some (ofText text) else none

/-- What the program computes for the byte offset of a position, unless it stops. -/
def offsetIn? (build : Build) (index : LineIndex) (p : Pos) : Option (Option Nat) :=
  (index.starts[p.line]?).mapM fun start => build.add? start p.col

end LineIndex

end RakuAtlas.Text
