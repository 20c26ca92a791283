import RakuAtlas.Lexical.Classify

/-!
# RakuAtlas.Lexical.Classifier — classifiers of whole texts

A classifier cuts one line at a time and may fail. `Classifier.raku` is the
one of this library and never fails; `Classifier.failingOn` gives up on lines
that hold a marker, which is how a classifier that is not available behaves.

`Classifier.run` threads the state through the lines of a text. One failure
fails the whole text.
-/

namespace RakuAtlas.Lexical

open Text (Line occursIn)

/-- Why a line could not be classified. -/
inductive ClassifyError where
  | unavailable (reason : String)
deriving DecidableEq, Repr

namespace ClassifyError

/-- The text of the error. -/
def message : ClassifyError → String
  | .unavailable reason => s!"lexical classifier unavailable: {reason}"

end ClassifyError

/-- A way to classify lines, given the state at their start. -/
structure Classifier where
  classify : LineState → Line → Except ClassifyError (List Piece × LineState)

namespace Classifier

/-- The classifier of this library. -/
def raku : Classifier := ⟨fun state line => .ok (Lexical.classify state line)⟩

/-- The classifier of this library, but for lines that hold `marker`, on which
it fails. -/
def failingOn (marker : String) : Classifier :=
  ⟨fun state line =>
    if occursIn marker.toList line then .error (.unavailable s!"marker {marker}")
    else .ok (Lexical.classify state line)⟩

/-- Classify lines in order, from a state on. Each line comes with the state
at its start. -/
def runFrom (c : Classifier) (state : LineState) :
    List Line → Except ClassifyError (List (LineState × List Piece))
  | [] => .ok []
  | line :: more => do
    let (pieces, next) ← c.classify state line
    let others ← c.runFrom next more
    return (state, pieces) :: others

/-- Classify the lines of a text. -/
def run (c : Classifier) (lines : List Line) :
    Except ClassifyError (List (LineState × List Piece)) :=
  c.runFrom .initial lines

/-- The pieces of the lines of a text. -/
def pieces (c : Classifier) (lines : List Line) : Except ClassifyError (List (List Piece)) :=
  (c.run lines).map (·.map Prod.snd)

end Classifier

end RakuAtlas.Lexical
