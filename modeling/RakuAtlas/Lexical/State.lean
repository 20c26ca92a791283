import RakuAtlas.Lexical.Quote

/-!
# RakuAtlas.Lexical.State — what one line leaves to the next

Multi-line strings, comments, documentation blocks and heredocs go on past
the end of a line. A `LineState` is all that the next line needs to know.
-/

namespace RakuAtlas.Lexical

open Text (Line)

/-- A documentation block. -/
inductive Pod where
  /-- `=begin NAME` to `=end NAME`; an empty name is ended by any `=end`. -/
  | delimited (name : Line)
  /-- `=head1`, `=item`, `=for` and so on, up to a blank line. -/
  | paragraph
  /-- `=finish` and `=END`: the rest of the text. -/
  | finish
deriving DecidableEq, Repr

/-- What the next line starts in. -/
inductive Mode where
  | code
  | quoted (quote : Quote)
  | pod (block : Pod)
  | heredoc
deriving DecidableEq, Repr

/-- The state between two lines. -/
structure LineState where
  mode : Mode
  /-- The terminators of the heredocs announced so far, in order. -/
  pending : List Line
deriving DecidableEq, Repr

namespace LineState

/-- The state at the top of a text. -/
def initial : LineState := ⟨.code, []⟩

/-- The state after a line that ends in code: heredocs that were announced
start on the next line. -/
def afterCode (pending : List Line) : LineState :=
  if pending = [] then ⟨.code, []⟩ else ⟨.heredoc, pending⟩

/-- Whether the next line starts as plain code. -/
def isCode (s : LineState) : Bool := s.mode == .code

/-- Whether the next line starts inside a string or pattern. -/
def inLiteral (s : LineState) : Bool :=
  match s.mode with
  | .quoted quote => quote.cls.isLiteral
  | .heredoc => true
  | .code | .pod _ => false

end LineState

end RakuAtlas.Lexical
