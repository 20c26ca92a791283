import RakuAtlas.Symbol.Index

/-!
# RakuAtlas.Query.Outline — lists of symbols

The outline of a document, and the symbols of the workspace that begin with a
query.
-/

namespace RakuAtlas.Query

/-- A symbol in a list. -/
structure SymbolInfo where
  name : String
  kind : SymbolKind
  /-- The declaration and its block. -/
  location : Location
  /-- The scope around it, if there is one. -/
  container : Option String
deriving DecidableEq, Repr

namespace SymbolInfo

/-- What a list shows of a symbol. -/
def ofSymbol (s : Symbol) : SymbolInfo :=
  ⟨s.name, s.kind, ⟨s.file, s.extent⟩, if s.scope.isEmpty then none else some s.scope⟩

end SymbolInfo

/-- The outline of a document in the order of lines, without variables. -/
def documentSymbols (t : Table) : List SymbolInfo :=
  (t.byLine.filter fun s => s.kind != .localVar && s.kind != .importing).map SymbolInfo.ofSymbol

/-- Put what a list shows of these symbols behind what was found, each once, until
that is as much as the limit allows. -/
def addNew (limit : Option Nat) (found : List SymbolInfo) : List Symbol → List SymbolInfo
  | [] => found
  | s :: more =>
    if limit.any (· ≤ found.length) then found
    else
      let info := SymbolInfo.ofSymbol s
      addNew limit (if found.contains info then found else found ++ [info]) more

/-- The symbols of the workspace that begin with `start`, each once. Without a
limit all of them. -/
def workspaceSymbols (index : Index) (start : String) (limit : Option Nat) : List SymbolInfo :=
  addNew limit [] (index.query start none)

end RakuAtlas.Query
