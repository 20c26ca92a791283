import RakuAtlas.Lexical.Classifier

/-!
# RakuAtlas.Lexical.Skeleton — lines without what is quoted

Braces and keywords inside strings, patterns and comments must not be taken
for code. The skeleton of a line keeps its code, puts `___` where a literal
begins, and has nothing for comments and for the rest of a literal that began
on an earlier line.
-/

namespace RakuAtlas.Lexical

open Text (Line trim)

/-- What stands for a literal that begins on the line. -/
def placeholder : Line := "___".toList

/-- What is left of one piece; `continued` says that it goes on with a literal
of an earlier line. -/
def Piece.skeleton (continued : Bool) (p : Piece) : Line :=
  match p.cls with
  | .code => p.text
  | .comment => []
  | .string | .pattern => if continued then [] else placeholder

/-- The skeleton of a line, from its pieces and the state at its start. Only
the first piece can go on with an earlier literal. -/
def skeletonLine (state : LineState) : List Piece → Line
  | [] => []
  | p :: ps => trim (p.skeleton state.inLiteral ++ ps.flatMap (Piece.skeleton false))

/-- The skeletons of the lines of a text. -/
def Classifier.skeleton (c : Classifier) (lines : List Line) : Except ClassifyError (List Line) :=
  (c.run lines).map (·.map fun (state, pieces) => skeletonLine state pieces)

end RakuAtlas.Lexical
