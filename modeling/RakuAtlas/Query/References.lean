import RakuAtlas.Query.Occurrence
import RakuAtlas.Query.Pattern
import RakuAtlas.Query.SymbolAt
import RakuAtlas.Symbol.Resolve
import RakuAtlas.Workspace.Files

/-!
# RakuAtlas.Query.References — declarations and references

What the cursor is on is resolved to its declaration first. A variable is then
searched for in its own document, from the declaration on. Anything else is
searched for in the document and in the files that declare it. There are no
references to a name whose pattern cannot be compiled.
-/

namespace RakuAtlas.Query

open Text (lines)
open RakuAtlas.Symbol (SymbolName)
open Lexical (Classifier)

/-- What a search may look at besides the document. -/
structure World where
  disk : Disk
  files : Files
  index : Index
  modules : ModuleMap
  /-- Without a classifier all matches count. -/
  classifier : Option Classifier

/-- The document that the cursor is in. -/
structure Document where
  table : Table
  text : String

namespace Document

/-- What a symbol in the document is looked up in. -/
def scopes (doc : Document) (world : World) : Scopes :=
  ⟨doc.table, some world.modules, some world.index⟩

end Document

/-- The references to a symbol. -/
structure References where
  /-- What was searched for: a variable as written, and otherwise the name of
  the declaration. -/
  symbol : String
  declaration : Symbol
  occurrences : List Occurrence
deriving DecidableEq, Repr

/-- The declarations of what the position is on. -/
def definitions (world : World) (doc : Document) (pos : Pos) : List Location :=
  match symbolIn? doc.text pos with
  | some found =>
    ((doc.scopes world).resolve (String.ofList found.text) pos.line).symbols.map Symbol.location
  | none => []

/-- The occurrences of a name in another file; none if it cannot be read. -/
def occurrencesIn (world : World) (name : SymbolName) (file : FileId) : List Occurrence :=
  match world.files.text? world.disk file with
  | some text => occurrences world.classifier name file text 0
  | none => []

section
variable [PatternLibrary]

/-- The references to a symbol that is used on a line. `none` if it has no
declaration, or if its pattern is not compiled. -/
def referencesTo? (world : World) (doc : Document) (symbol : String) (line : Nat) :
    Option References := do
  let declaration ← ((doc.scopes world).resolve symbol line).primary?
  let searched := if (SymbolName.parse symbol.toList).hasSigil then symbol else declaration.name
  let name := SymbolName.parse searched.toList
  let file := doc.table.file
  if name.base.isEmpty then none
  else if !PatternLibrary.builds name then none
  else
    let found := if name.hasSigil then
        occurrences world.classifier name file doc.text declaration.line
      else
        let others := (world.index.filesDeclaring declaration.name).filter (· != file)
        occurrences world.classifier name file doc.text 0 ++
          others.flatMap (occurrencesIn world name)
    some ⟨searched, declaration, deduplicate Occurrence.location found⟩

/-- The references to what the position is on. -/
def referencesAt? (world : World) (doc : Document) (pos : Pos) : Option References := do
  let found ← symbolIn? doc.text pos
  referencesTo? world doc (String.ofList found.text) pos.line

end

namespace References

/-- Whether an occurrence is on the line of the declaration. -/
def onDeclaration (refs : References) (o : Occurrence) : Bool :=
  o.location.file == refs.declaration.file &&
    o.location.range.start.line == refs.declaration.line

/-- The references without the first one on the line of the declaration. -/
def withoutDeclaration (refs : References) : References :=
  { refs with occurrences := refs.occurrences.eraseP refs.onDeclaration }

/-- Where the references are. -/
def locations (refs : References) : List Location := refs.occurrences.map Occurrence.location

end References

/-- Where what the position is on is written. -/
def referenceLocations? [PatternLibrary] (world : World) (doc : Document) (pos : Pos)
    (withDeclaration : Bool) : Option (List Location) := do
  let refs ← referencesAt? world doc pos
  return (if withDeclaration then refs else refs.withoutDeclaration).locations

end RakuAtlas.Query
