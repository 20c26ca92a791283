import RakuAtlas.Lexical.Classifier
import RakuAtlas.Symbol.Name
import RakuAtlas.Text.Search

/-!
# RakuAtlas.Query.Occurrence — where a name is written

`occurrences` searches a text for a name, line by line. A plain name is found
where it stands alone; a variable is found with its sigil, in braces after its
sigil, and as an attribute. Matches inside strings, patterns and comments are
dropped, if a classifier can tell.

`deduplicate` orders what was found and keeps, of matches that overlap, the
longest.
-/

namespace RakuAtlas.Query

open Unicode (isAlphabetic isAlphanumeric)
open Text
open RakuAtlas.Symbol (SymbolName isSigil isTwigil)
open Lexical (Classifier Piece)

/-! ## Matching on one line -/

/-- How much of a match an edit replaces. -/
inductive EditForm where
  /-- All of it: `foo`, `$foo`. -/
  | whole
  /-- Only the name: `foo` in `${foo}`, `$.foo`, `$!foo`. -/
  | baseOnly
deriving DecidableEq, Repr

/-- What a match is made of: the characters before the name, and how it is
edited. -/
structure MatchForm where
  lead : Nat
  form : EditForm
deriving DecidableEq, Repr

/-- After a sigil: the name in braces, with the length of the whole match. -/
def braced? (base rest : Line) : Option (Nat × MatchForm) := do
  let inner ← base.isPrefixOf? (← afterChar? '{' rest)
  let _ ← afterChar? '}' inner
  return (base.length + 3, ⟨2, .baseOnly⟩)

/-- After a sigil: a twigil and the name, with the length of the whole match. -/
def attribute? (base : Line) : Line → Option (Nat × MatchForm)
  | twigil :: rest =>
    if isTwigil twigil && base.isPrefixOf rest then some (base.length + 2, ⟨2, .baseOnly⟩)
    else none
  | [] => none

/-- After a sigil: the name itself, with the length of the whole match. -/
def bare? (base rest : Line) : Option (Nat × MatchForm) :=
  if base.isPrefixOf rest then some (base.length + 1, ⟨1, .whole⟩) else none

/-- The match of a name that comes here, and its length. A variable with a
twigil is searched for as an attribute only. -/
def matchLen? (name : SymbolName) (cs : Line) : Option (Nat × MatchForm) :=
  match name.sigil with
  | none => if name.base.isPrefixOf cs then some (name.base.length, ⟨0, .whole⟩) else none
  | some sigil =>
    match afterChar? sigil cs with
    | none => none
    | some rest =>
      if name.twigil.isSome then attribute? name.base rest
      else (braced? name.base rest).or ((attribute? name.base rest).or (bare? name.base rest))

/-- Characters that a name may not touch. -/
def isIdentifierChar (c : Char) : Bool := isAlphanumeric c || c == '_'

/-- Whether a name that stops before these characters ends there: nothing goes
on with it. -/
def endsIdentifier : Line → Bool
  | [] => true
  | c :: rest =>
    if isIdentifierChar c then false
    else if c = '-' || c = '\'' then !rest.head?.any fun d => isAlphabetic d || d == '_'
    else if c = ':' then
      match rest with
      | ':' :: more => !more.head?.any isIdentifierChar
      | _ => true
    else true

/-- Whether a plain name that comes after these characters, the nearest first,
starts there: it is neither the rest of a longer name nor that of a
variable. -/
def startsIdentifier : Line → Bool
  | [] => true
  | c :: before =>
    if isIdentifierChar c || isSigil c then false
    else if c = '-' || c = '\'' then !before.head?.any isIdentifierChar
    else if isTwigil c then !before.head?.any isSigil
    else true

/-- Whether a match is the whole of a name. -/
def standsAlone (name : SymbolName) (h : Hit MatchForm) : Bool :=
  endsIdentifier h.after && (name.hasSigil || startsIdentifier h.before)

/-- The matches of a name on a line. -/
def matchesOn (name : SymbolName) (line : Line) : List (Hit MatchForm) :=
  (hits (matchLen? name) line).filter (standsAlone name)

/-! ## Occurrences in a text -/

/-- One place where a name is written. -/
structure Occurrence where
  /-- The whole match. -/
  location : Location
  /-- The part that an edit replaces. -/
  edit : Range
  form : EditForm
deriving DecidableEq, Repr

/-- The occurrence that a match on a line is. -/
def occurrenceOf (name : SymbolName) (file : FileId) (line : Nat) (h : Hit MatchForm) :
    Occurrence :=
  let whole := Range.onLine line h.start h.stop
  match h.info.form with
  | .whole => ⟨⟨file, whole⟩, whole, .whole⟩
  | .baseOnly =>
    let start := h.start + byteLen (h.text.take h.info.lead)
    ⟨⟨file, whole⟩, .onLine line start (start + byteLen name.base), .baseOnly⟩

/-- The occurrences on lines of which the first has number `line`. -/
def occurrencesFrom (name : SymbolName) (file : FileId) (line : Nat) :
    List Line → List Occurrence
  | [] => []
  | cs :: more =>
    (matchesOn name cs).map (occurrenceOf name file line) ++
      occurrencesFrom name file (line + 1) more

/-- Whether a range of a line overlaps a piece of it that is not code. -/
def inQuoted (pieces : List Piece) (range : Range) : Bool :=
  (Piece.spans pieces).any fun span =>
    span.cls != .code && span.start < range.stop.col && range.start.col < span.stop

/-- The occurrences that are in code. If the classifier fails, all of them. -/
def codeOnly (classifier : Classifier) (lines : List Line) (found : List Occurrence) :
    List Occurrence :=
  match classifier.pieces lines with
  | .error _ => found
  | .ok pieces =>
    found.filter fun o =>
      match pieces[o.location.range.start.line]? with
      | some line => !inQuoted line o.location.range
      | none => true

/-- Where a name is written in a text, from a line on. -/
def occurrences (classifier : Option Classifier) (name : SymbolName) (file : FileId)
    (text : String) (firstLine : Nat) : List Occurrence :=
  let all := lines text
  let found := occurrencesFrom name file firstLine (all.drop firstLine)
  match classifier with
  | some c => codeOnly c all found
  | none => found

/-! ## Removing overlaps -/

section Deduplicate

variable {α : Type} (locate : α → Location)

/-- Whether two places in the order of location are the same or overlap. -/
def clashes (a b : Location) : Bool :=
  a.file == b.file && (a.range.start == b.range.start || a.range.overlaps b.range)

/-- Whether the first of two ranges is the larger: more lines, or on equal
lines more columns. -/
def isLarger (a b : Range) : Bool :=
  b.extent.1 < a.extent.1 || (b.extent.1 == a.extent.1 && b.extent.2 < a.extent.2)

/-- Collapse what clashes with `kept`, in a list ordered by location, to the
largest of it, and go on with the next that does not. -/
def collapseFrom (kept : α) : List α → List α
  | [] => [kept]
  | item :: rest =>
    if clashes (locate kept) (locate item) then
      collapseFrom (if isLarger (locate item).range (locate kept).range then item else kept) rest
    else kept :: collapseFrom item rest

/-- Order by location and keep, of items that overlap, the largest. -/
def deduplicate (items : List α) : List α :=
  match items.mergeSort fun a b => (compare (locate a) (locate b)).isLE with
  | [] => []
  | first :: rest => collapseFrom locate first rest

end Deduplicate

end RakuAtlas.Query
