import RakuAtlas.Unicode.Additions
import RakuAtlas.Unicode.Letter
import RakuAtlas.Unicode.Mark
import RakuAtlas.Unicode.Number

/-!
# RakuAtlas.Unicode.CharClass — the character classes of names and blanks

Every class is decided by an ASCII test below U+0080 and by range tables
above it. The classes, from the narrowest use to the widest:

* `isBlank`: what trimming removes and what separates words;
* `isLetter`, `isNumber`: what code tokens are made of;
* `isWord`: what a declared name is made of;
* `isAlphanumeric`: what may not touch an occurrence of a name;
* `isIdentStart`, `isIdentContinue`: what a new name is made of.

The last two groups know more characters than the others, those of
`additions17` and `additions18`.
-/

namespace RakuAtlas.Unicode

/-- Whether the code point of `c` lies in one of the closed ranges. -/
def inRanges (ranges : List (Nat × Nat)) (c : Char) : Bool :=
  ranges.any fun r => r.1 ≤ c.toNat && c.toNat ≤ r.2

/-- Whether `c` is an ASCII character. -/
def isAscii (c : Char) : Bool := c.toNat < 0x80

/-! ## Blanks -/

/-- White space from U+0080 on. -/
def blankRanges : List (Nat × Nat) := [
  (0x85, 0x85), (0xA0, 0xA0), (0x1680, 0x1680), (0x2000, 0x200A), (0x2028, 0x2029),
  (0x202F, 0x202F), (0x205F, 0x205F), (0x3000, 0x3000)]

/-- White space: tab to carriage return, the space, and the wide and
no-break spaces and separators of Unicode. -/
def isBlank (c : Char) : Bool :=
  if isAscii c then (9 ≤ c.toNat && c.toNat ≤ 13) || c == ' ' else inRanges blankRanges c

/-! ## Letters and numbers -/

/-- Letters of any script (general category L). -/
def isLetter (c : Char) : Bool :=
  if isAscii c then c.isAlpha else inRanges letterRanges c

/-- Decimal digits of any script (general category Nd). -/
def isDecimal (c : Char) : Bool :=
  if isAscii c then c.isDigit else inRanges decimalRanges c

/-- Letter-like numerals (general category Nl). -/
def isNumeral (c : Char) : Bool := !isAscii c && inRanges numeralRanges c

/-- Numbers of any kind (general category N). -/
def isNumber (c : Char) : Bool :=
  isDecimal c || isNumeral c || (!isAscii c && inRanges otherNumberRanges c)

/-- Circled and squared letters. -/
def isCircled (c : Char) : Bool := inRanges circledRanges c

/-! ## Words -/

/-- Combining marks (general category M). -/
def isMark (c : Char) : Bool := !isAscii c && inRanges markRanges c

/-- Connector punctuation (general category Pc): the underscore and its kin. -/
def isConnector (c : Char) : Bool :=
  c == '_' || inRanges [(0x203F, 0x2040), (0x2054, 0x2054), (0xFE33, 0xFE34),
    (0xFE4D, 0xFE4F), (0xFF3F, 0xFF3F)] c

/-- The zero-width joiner and non-joiner. -/
def isJoiner (c : Char) : Bool := inRanges [(0x200C, 0x200D)] c

/-- Word characters: letters of all kinds, letter-like numerals, marks,
decimal digits, connectors and joiners. -/
def isWord (c : Char) : Bool :=
  isLetter c || isNumeral c || isCircled c || isMark c || isDecimal c || isConnector c ||
    isJoiner c

/-! ## Alphabetic characters -/

/-- Alphabetic characters: letters of all kinds, letter-like numerals, and the
vowel signs and other marks that count as alphabetic. -/
def isAlphabetic (c : Char) : Bool :=
  isLetter c || isNumeral c || isCircled c || inRanges alphabeticMarkRanges c ||
    inRanges additions17.letters c || inRanges additions17.numerals c

/-- Alphabetic characters and numbers. -/
def isAlphanumeric (c : Char) : Bool :=
  isAlphabetic c || isNumber c || inRanges additions17.decimals c

/-! ## Identifiers -/

/-- Letters and letter-like numerals of later versions. -/
def isLaterLetter (c : Char) : Bool :=
  [additions17, additions18].any fun a => inRanges a.letters c || inRanges a.numerals c

/-- Marks and decimal digits of later versions. -/
def isLaterMark (c : Char) : Bool :=
  [additions17, additions18].any fun a => inRanges a.marks c || inRanges a.decimals c

/-- Letters and numerals whose compatibility form could not start an
identifier. -/
def unstableLetterRanges : List (Nat × Nat) := [
  (0x37A, 0x37A), (0xE33, 0xE33), (0xEB3, 0xEB3), (0x2E2F, 0x2E2F), (0xFC5E, 0xFC63),
  (0xFDFA, 0xFDFB), (0xFE70, 0xFE70), (0xFE72, 0xFE72), (0xFE74, 0xFE74), (0xFE76, 0xFE76),
  (0xFE78, 0xFE78), (0xFE7A, 0xFE7A), (0xFE7C, 0xFE7C), (0xFE7E, 0xFE7E), (0xFF9E, 0xFF9F)]

/-- Characters that start an identifier (XID_Start): letters and numerals
with a stable compatibility form, and four grandfathered signs. -/
def isIdentStart (c : Char) : Bool :=
  ((isLetter c || isNumeral c) && !inRanges unstableLetterRanges c) || isLaterLetter c ||
    inRanges [(0x1885, 0x1886), (0x2118, 0x2118), (0x212E, 0x212E)] c

/-- Characters that continue an identifier (XID_Continue): those that start
one, non-enclosing marks, decimal digits, connectors, and a few more. -/
def isIdentContinue (c : Char) : Bool :=
  isIdentStart c || (isMark c && !inRanges enclosingMarkRanges c) || isDecimal c ||
    isLaterMark c || isConnector c || isJoiner c ||
    inRanges [(0xB7, 0xB7), (0x387, 0x387), (0xE33, 0xE33), (0xEB3, 0xEB3), (0x1369, 0x1371),
      (0x19DA, 0x19DA), (0x30FB, 0x30FB), (0xFF65, 0xFF65), (0xFF9E, 0xFF9F)] c

end RakuAtlas.Unicode
