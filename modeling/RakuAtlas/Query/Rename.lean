import RakuAtlas.Query.Edit
import RakuAtlas.Query.References
import RakuAtlas.Symbol.Reserved

/-!
# RakuAtlas.Query.Rename — renaming a symbol

A rename is refused by what is written alone: by the symbol under the cursor
and by the new name. Otherwise it edits all references, or there is nothing to
edit.

The new name may leave out the sigil and twigil of the old one, and takes them
over. It must not have others.
-/

namespace RakuAtlas.Query

open Unicode (isIdentStart isIdentContinue)
open Text (Line trim splitOnList)
open RakuAtlas.Symbol (SymbolName isReserved)

/-- Why a rename is refused. -/
inductive RenameError where
  | noSymbol
  | emptySymbol (symbol : String)
  | reserved (name : String)
  | invalidNewName (name : String)
  | sigilMismatch (old new : String)
  | unknownDocument
deriving DecidableEq, Repr

namespace RenameError

/-- The text of the refusal. -/
def message : RenameError → String
  | .noSymbol => "no symbol at the given position"
  | .emptySymbol symbol => s!"symbol `{symbol}` has an empty name"
  | .reserved name => s!"`{name}` is a reserved word"
  | .invalidNewName name => s!"`{name}` is not a valid name"
  | .sigilMismatch old new => s!"cannot rename `{old}` to `{new}`: sigils differ"
  | .unknownDocument => "document is not open"

end RenameError

/-! ## Names -/

/-- Whether an identifier goes on with these characters to its end: hyphens and
apostrophes stand only before characters that could start one. -/
def continuesIdentifier : Line → Bool
  | [] => true
  | c :: cs =>
    if c = '-' || c = '\'' then
      cs.head?.any (fun d => d == '_' || isIdentStart d) && continuesIdentifier cs
    else isIdentContinue c && continuesIdentifier cs

/-- Whether the characters are an identifier. -/
def isIdentifier : Line → Bool
  | [] => false
  | c :: cs => (c == '_' || isIdentStart c) && continuesIdentifier cs

/-- The new name with the sigil and twigil of the symbol, or why it cannot
be. -/
def normalizeNewName (symbol newName : String) : Except RenameError String :=
  let old := SymbolName.parse symbol.toList
  let new := SymbolName.parse (trim newName.toList)
  if new.sigil.isSome && new.sigil != old.sigil then .error (.sigilMismatch symbol newName)
  else if new.twigil.isSome && new.twigil != old.twigil then .error (.invalidNewName newName)
  else if !(splitOnList "::".toList new.base).all isIdentifier then
    .error (.invalidNewName newName)
  else if isReserved new.base then .error (.reserved newName)
  else .ok (String.ofList { old with base := new.base }.render)

/-- Why a symbol must not be renamed, if so. -/
def refusal? (symbol : Line) : Option RenameError :=
  let base := (SymbolName.parse symbol).base
  if base.isEmpty then some (.emptySymbol (String.ofList symbol))
  else if isReserved base then some (.reserved (String.ofList symbol))
  else none

/-! ## Renaming -/

/-- The symbol that the position is on, if it may be renamed. -/
def renameTarget? (text : String) (pos : Pos) : Option SymbolAt := do
  let found ← symbolIn? text pos
  if (refusal? found.text).isSome then none else some found

/-- The edit of one occurrence. -/
def editOf (newName : String) (o : Occurrence) : TextEdit :=
  match o.form with
  | .whole => ⟨o.edit, newName⟩
  | .baseOnly => ⟨o.edit, String.ofList (SymbolName.parse newName.toList).base⟩

/-- The edits that rename what the position is on; `none` if there is nothing
to edit. -/
def rename [PatternLibrary] (world : World) (doc : Document) (pos : Pos) (newName : String) :
    Except RenameError (Option WorkspaceEdit) :=
  match symbolIn? doc.text pos with
  | none => .error .noSymbol
  | some found =>
    match refusal? found.text with
    | some refusal => .error refusal
    | none => do
      let full ← normalizeNewName (String.ofList found.text) newName
      match referencesAt? world doc pos with
      | none => return none
      | some refs =>
        if refs.occurrences.isEmpty then return none
        else return some (refs.occurrences.foldl
          (fun edit o => edit.add o.location.file (editOf full o)) .empty)

end RakuAtlas.Query
