import RakuAtlas.Symbol.Table

/-!
# RakuAtlas.Query.Folding — what can be folded

Declarations with a block of several lines, and runs of two or more lines that
hold nothing but comments.
-/

namespace RakuAtlas.Query

open Text (Line lines trim)
open Lexical (Classifier Piece)

/-- Lines that can be folded into one. -/
structure Fold where
  start : Nat
  stop : Nat
  /-- Whether the lines are comments rather than a block. -/
  isComment : Bool
deriving DecidableEq, Repr

namespace Fold

/-- Whether one fold comes before another, by start and then by stop. -/
def atOrBefore (a b : Fold) : Bool := a.start < b.start || (a.start == b.start && a.stop ≤ b.stop)

end Fold

/-- Whether a line holds a comment and besides it only white space. -/
def isCommentLine (pieces : List Piece) : Bool :=
  let visible := pieces.filter fun p => !(trim p.text).isEmpty
  !visible.isEmpty && visible.all (·.cls == .comment)

/-- The fold of a run of comment lines from `start` up to `stop`, if it has at
least two. -/
def commentFold (start stop : Nat) : List Fold :=
  if start + 2 ≤ stop then [⟨start, stop - 1, true⟩] else []

/-- The folds of the runs in a list that says which lines are comments. `line`
is the number of the first, and `start` that of the run it is in. -/
def commentRuns (line : Nat) (start : Option Nat) : List Bool → List Fold
  | [] => (start.map (commentFold · line)).getD []
  | true :: more => commentRuns (line + 1) (some (start.getD line)) more
  | false :: more => (start.map (commentFold · line)).getD [] ++ commentRuns (line + 1) none more

/-- The folds of comments in a text; none if it cannot be classified. -/
def commentFolds (classifier : Classifier) (text : String) : List Fold :=
  match classifier.pieces (lines text) with
  | .ok pieces => commentRuns 0 none (pieces.map isCommentLine)
  | .error _ => []

/-- The folds of the blocks in a table. -/
def blockFolds (t : Table) : List Fold :=
  (t.grouped.filter Symbol.isMultiline).map fun s => ⟨s.line, s.stop, false⟩

/-- Drop every fold that is the same as the next. -/
def dropRepeats : List Fold → List Fold
  | [] => []
  | [f] => [f]
  | f :: g :: more => if f = g then dropRepeats (g :: more) else f :: dropRepeats (g :: more)

/-- The folds of a document, in the order of their lines. -/
def folds (t : Table) (text : String) (classifier : Option Classifier) : List Fold :=
  let comments := match classifier with
    | some c => commentFolds c text
    | none => []
  dropRepeats ((blockFolds t ++ comments).mergeSort Fold.atOrBefore)

end RakuAtlas.Query
