/-!
# RakuAtlas.Text.Position — positions, ranges and locations

A position is a line number and a byte column, both counted from zero and
shown counted from one. Ranges are half open. A location is a range inside
one file, and files are known by their number.

All three order lexicographically by their fields (`Pos.compare`,
`Range.compare`), which is the order in which answers list them.
-/

namespace RakuAtlas

/-! ## Positions -/

/-- A place in a text: the line, and the bytes before it on that line. -/
structure Pos where
  line : Nat
  col : Nat
deriving DecidableEq, Repr, Inhabited

namespace Pos

/-- Positions order by line, then by column. -/
protected def compare (a b : Pos) : Ordering :=
  (Ord.compare a.line b.line).then (Ord.compare a.col b.col)

instance : Ord Pos := ⟨Pos.compare⟩

instance : LT Pos := ⟨fun a b => a.line < b.line ∨ (a.line = b.line ∧ a.col < b.col)⟩

instance : LE Pos := ⟨fun a b => a.line < b.line ∨ (a.line = b.line ∧ a.col ≤ b.col)⟩

instance (a b : Pos) : Decidable (a < b) :=
  inferInstanceAs (Decidable (a.line < b.line ∨ (a.line = b.line ∧ a.col < b.col)))

instance (a b : Pos) : Decidable (a ≤ b) :=
  inferInstanceAs (Decidable (a.line < b.line ∨ (a.line = b.line ∧ a.col ≤ b.col)))

theorem lt_iff (a b : Pos) : a < b ↔ a.line < b.line ∨ a.line = b.line ∧ a.col < b.col :=
  Iff.rfl

theorem le_iff (a b : Pos) : a ≤ b ↔ a.line < b.line ∨ a.line = b.line ∧ a.col ≤ b.col :=
  Iff.rfl

/-- A position as people count: the first line and column are 1. -/
def render (p : Pos) : String := s!"{p.line + 1}:{p.col + 1}"

end Pos

/-! ## Ranges -/

/-- The half-open stretch from `start` up to `stop`. -/
structure Range where
  start : Pos
  stop : Pos
deriving DecidableEq, Repr, Inhabited

namespace Range

/-- The columns `startCol` up to `stopCol` of one line. -/
def onLine (line startCol stopCol : Nat) : Range := ⟨⟨line, startCol⟩, ⟨line, stopCol⟩⟩

/-- A whole line, up to the start of the next one. -/
def wholeLine (line : Nat) : Range := ⟨⟨line, 0⟩, ⟨line + 1, 0⟩⟩

/-- Two ranges overlap when each starts before the other stops. -/
def overlaps (a b : Range) : Bool := a.start < b.stop && b.start < a.stop

/-- Whether the position lies in the range; its stop does not. -/
def contains (r : Range) (p : Pos) : Bool := r.start ≤ p && p < r.stop

/-- Lines and columns spanned, each cut off at zero. Of two overlapping
matches the one with the larger extent is preferred. -/
def extent (r : Range) : Nat × Nat :=
  (r.stop.line - r.start.line, r.stop.col - r.start.col)

/-- Ranges order by start, then by stop. -/
protected def compare (a b : Range) : Ordering :=
  (Ord.compare a.start b.start).then (Ord.compare a.stop b.stop)

instance : Ord Range := ⟨Range.compare⟩

/-- A range as people count, from start to stop. -/
def render (r : Range) : String := s!"{r.start.render}-{r.stop.render}"

end Range

/-! ## Files and locations -/

/-- The number under which a file is known. -/
@[ext] structure FileId where
  index : Nat
deriving DecidableEq, Repr, Inhabited, Hashable

namespace FileId

/-- Files order by number. -/
protected def compare (a b : FileId) : Ordering := Ord.compare a.index b.index

instance : Ord FileId := ⟨FileId.compare⟩

/-- A file in running text. -/
def render (f : FileId) : String := s!"file#{f.index}"

/-- A file in a diagnostic dump. -/
def dump (f : FileId) : String := s!"FileId({f.index})"

end FileId

/-- A range inside a file. -/
structure Location where
  file : FileId
  range : Range
deriving DecidableEq, Repr, Inhabited

namespace Location

/-- Locations order by file, then by range. -/
protected def compare (a b : Location) : Ordering :=
  (Ord.compare a.file b.file).then (Ord.compare a.range b.range)

instance : Ord Location := ⟨Location.compare⟩

/-- A location in running text. -/
def render (l : Location) : String := s!"{l.file.render}@{l.range.render}"

end Location

end RakuAtlas
