import RakuAtlas.Text.Chars

/-!
# RakuAtlas.Disk.Path — paths

A path is kept as it was spelled and compared by its parts, so that repeated
slashes, `.` in the middle and a slash at the end make no difference. `..` is
a part of its own, since what it means depends on the links before it.
-/

namespace RakuAtlas

open Text (splitWhen)

/-- A part of a path. -/
inductive PathPart where
  /-- The slash in front. -/
  | root
  /-- A dot in front. -/
  | here
  /-- Two dots. -/
  | up
  | name (text : String)
deriving DecidableEq, Repr

namespace PathPart

/-- The part as written. -/
def render : PathPart → String
  | .root => "/"
  | .here => "."
  | .up => ".."
  | .name text => text

end PathPart

/-- A path as it was spelled. -/
structure Path where
  spelling : String
deriving Repr, Inhabited

namespace Path

/-- The part that a piece between slashes stands for. -/
def partOf? (piece : List Char) : Option PathPart :=
  if piece = [] || piece = ['.'] then none
  else if piece = ['.', '.'] then some .up
  else some (.name (String.ofList piece))

/-- The parts of a path. -/
def parts (p : Path) : List PathPart :=
  let pieces := splitWhen (· == '/') p.spelling.toList
  let inner := pieces.filterMap partOf?
  if p.spelling.toList.head? = some '/' then .root :: inner
  else if pieces.head? = some ['.'] then .here :: inner
  else inner

/-- Whether this can be a path at all: there is no NUL character in it. -/
def isWellFormed (p : Path) : Bool := !p.spelling.toList.contains '\x00'

/-- Paths are the same if they have the same parts. -/
def same (p q : Path) : Bool := p.parts == q.parts

/-- Whether the spelling says that the path is a directory. -/
def wantsDirectory (p : Path) : Bool :=
  match p.spelling.toList.reverse with
  | '/' :: _ => true
  | '.' :: '/' :: _ => true
  | _ => false

/-- The parts of a path as steps that are taken one after the other. A path
that is spelled as a directory has one more, which only a directory can
take. -/
def steps (p : Path) : List PathPart :=
  if p.wantsDirectory then p.parts ++ [.here] else p.parts

/-- The path of a name in the directory at this path. There is a slash between the two, which may be
that at the end of the path; behind an empty path there is none. -/
def child (p : Path) (name : String) : Path :=
  if p.spelling.toList.getLast?.all (· == '/') then ⟨p.spelling ++ name⟩
  else ⟨p.spelling ++ "/" ++ name⟩

/-- The last part, if it is a name. -/
def fileName? (p : Path) : Option String :=
  match p.parts.getLast? with
  | some (.name text) => some text
  | _ => none

end Path

/-! ## File names -/

namespace FileName

/-- A file name cut at its last dot. A dot in front does not count. -/
def split? (name : List Char) : Option (List Char × List Char) :=
  let last := name.reverse.takeWhile (· ≠ '.')
  match name.reverse.drop last.length with
  | _ :: stem => if stem = [] then none else some (stem.reverse, last.reverse)
  | [] => none

/-- What follows the last dot of a file name. -/
def extension? (name : String) : Option String :=
  (split? name.toList).map fun (_, last) => String.ofList last

/-- A file name without its extension. What follows the last dot goes, and then
the dot; but two dots that are all that is left stay, since they are no file
name any more. -/
def stem (name : String) : String :=
  match split? name.toList with
  | some (['.'], _) => ".."
  | some (front, _) => String.ofList front
  | none => name

end FileName

end RakuAtlas
