import RakuAtlas.Text.Lines

/-!
# RakuAtlas.Lexical.Span — what the parts of a line are

Classifying a line cuts it into pieces. The pieces are kept with their text,
so that putting the texts together again gives the line; `spans` is the view
of them as byte ranges.
-/

namespace RakuAtlas.Lexical

open Text (byteLen Line)

/-- What a part of a line is. -/
inductive SpanClass where
  | code
  | string
  | comment
  /-- A regex literal, such as `/a+/`, `rx{a+}` or `s/a/b/`. -/
  | pattern
deriving DecidableEq, Repr, Inhabited

namespace SpanClass

/-- Strings and patterns, as opposed to comments and code. -/
def isLiteral : SpanClass → Bool
  | .string | .pattern => true
  | .code | .comment => false

/-- The name of the class. -/
def name : SpanClass → String
  | .code => "Code"
  | .string => "String"
  | .comment => "Comment"
  | .pattern => "Pattern"

end SpanClass

/-- A part of a line with its class. -/
structure Piece where
  cls : SpanClass
  text : Line
deriving DecidableEq, Repr, Inhabited

/-- The byte range of a piece within its line. -/
structure Span where
  start : Nat
  stop : Nat
  cls : SpanClass
deriving DecidableEq, Repr, Inhabited

namespace Piece

/-- The whole line as one piece; an empty line has none. -/
def whole (cls : SpanClass) (line : Line) : List Piece :=
  if line = [] then [] else [⟨cls, line⟩]

/-- Put code in front of the pieces, joining it with code that follows. -/
def consCode (text : Line) : List Piece → List Piece
  | ⟨.code, more⟩ :: pieces => ⟨.code, text ++ more⟩ :: pieces
  | pieces => ⟨.code, text⟩ :: pieces

/-- The text that the pieces were cut from. -/
def join (pieces : List Piece) : Line := pieces.flatMap Piece.text

@[simp] theorem join_nil : join [] = [] := rfl

@[simp] theorem join_cons (p : Piece) (ps : List Piece) : join (p :: ps) = p.text ++ join ps := rfl

/-- Putting code in front puts its text in front. -/
@[simp] theorem join_consCode (text : Line) (ps : List Piece) :
    join (consCode text ps) = text ++ join ps := by
  rw [consCode.eq_def]
  split <;> simp

/-- The whole line is the text of its only piece. -/
@[simp] theorem join_whole (cls : SpanClass) (line : Line) : join (whole cls line) = line := by
  rw [whole]
  split <;> simp_all

/-- The spans of pieces of which the first starts at `offset`. -/
def spansFrom (offset : Nat) : List Piece → List Span
  | [] => []
  | p :: ps =>
    let stop := offset + byteLen p.text
    ⟨offset, stop, p.cls⟩ :: spansFrom stop ps

/-- The spans of the pieces of one line. -/
def spans (pieces : List Piece) : List Span := spansFrom 0 pieces

end Piece

end RakuAtlas.Lexical
