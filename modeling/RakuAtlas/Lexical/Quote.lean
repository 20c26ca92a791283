import RakuAtlas.Lexical.Span

/-!
# RakuAtlas.Lexical.Quote — quoted constructs and where they close

A quoted construct is a string, a pattern or a bracketed comment. It is
delimited by one character on both sides or by a pair of brackets, and
brackets nest. Substitutions have two parts: `s/a/b/`, `s{a}{b}`.

`Quote.scan` reads the body from just after the opening delimiter. It either
closes, and says how many characters that took, or runs past the end of the
line and leaves a quote to go on with on the next line.
-/

namespace RakuAtlas.Lexical

open Unicode (isBlank)
open Text (Line)

/-- The closing bracket that belongs to an opening one. -/
def closing? : Char → Option Char
  | '(' => some ')'
  | '[' => some ']'
  | '{' => some '}'
  | '<' => some '>'
  | '«' => some '»'
  | '｢' => some '｣'
  | _ => none

/-- A quoted construct that is open. -/
structure Quote where
  cls : SpanClass
  /-- The opening bracket, for delimiters that nest. -/
  opener : Option Char
  closer : Char
  /-- Brackets opened inside the current part and not yet closed. -/
  depth : Nat
  /-- Parts still to close, the current one included. -/
  parts : Nat
  /-- Whether a backslash takes the meaning from the next character. -/
  escapes : Bool
deriving DecidableEq, Repr

namespace Quote

/-- A construct of one part, with escapes, opened by `delimiter`. -/
def opened (cls : SpanClass) (delimiter : Char) : Quote :=
  match closing? delimiter with
  | some closer => ⟨cls, some delimiter, closer, 0, 1, true⟩
  | none => ⟨cls, none, delimiter, 0, 1, true⟩

/-- The construct without escapes. -/
def verbatim (q : Quote) : Quote := { q with escapes := false }

/-- The construct with this many parts. -/
def withParts (q : Quote) (parts : Nat) : Quote := { q with parts := parts }

end Quote

/-- Where a scan stands within a quoted construct. -/
inductive Phase where
  | body
  /-- Just after a backslash: the next character stands for itself. -/
  | escaped
  /-- Between two bracketed parts, on the way to the next opening bracket. -/
  | gap
deriving DecidableEq, Repr

/-- How a scan ends. -/
inductive Scan where
  /-- The construct closes after `count` characters. -/
  | closed (count : Nat)
  /-- The line ends first; the construct goes on as `quote`. -/
  | unclosed (quote : Quote)
deriving DecidableEq, Repr

namespace Scan

/-- The scan of one character more in front. -/
def succ : Scan → Scan
  | .closed count => .closed (count + 1)
  | .unclosed quote => .unclosed quote

end Scan

namespace Quote

/-- Whether white space and then the opening bracket come next: the next part
of a bracketed construct follows. -/
def opensNext (bracket : Char) (cs : Line) : Bool := (cs.dropWhile isBlank).head? == some bracket

/-- Read the construct to its end or to the end of the line. -/
def scan (q : Quote) (phase : Phase) : Line → Scan
  | [] => .unclosed q
  | c :: cs =>
    match phase with
    | .escaped => (scan q .body cs).succ
    | .gap => (scan q (if q.opener = some c then .body else .gap) cs).succ
    | .body =>
      if q.escapes && c == '\\' then (scan q .escaped cs).succ
      else if q.opener = some c then (scan { q with depth := q.depth + 1 } .body cs).succ
      else if c ≠ q.closer then (scan q .body cs).succ
      else if 0 < q.depth then (scan { q with depth := q.depth - 1 } .body cs).succ
      else if q.parts ≤ 1 then .closed 1
      else match q.opener with
        -- the delimiter between two parts also opens the second one
        | none => (scan { q with parts := q.parts - 1 } .body cs).succ
        | some bracket =>
          if opensNext bracket cs then (scan { q with parts := q.parts - 1 } .gap cs).succ
          else .closed 1

end Quote

end RakuAtlas.Lexical
