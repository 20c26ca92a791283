import RakuAtlas.Declaration.Parse
import RakuAtlas.Symbol.Basic

/-!
# RakuAtlas.Symbol.Table — the symbols of one document

A table lists the symbols of a document in the order of their discovery, and
the modules that the document imports. The views of it are

* `get name`: the symbols with that name;
* `names`: the names, each where it was discovered first;
* `grouped`: all symbols, those with the same name together;
* `byLine`: all symbols in the order of their lines.
-/

namespace RakuAtlas

open Lexical (Classifier)

/-- The symbols and imports of one document. -/
structure Table where
  file : FileId
  /-- In the order of discovery. No name is empty. -/
  symbols : List Symbol
  /-- Each imported module with the first line that imports it. -/
  imports : List (String × Nat)
deriving DecidableEq, Repr

namespace Table

/-! ## Building -/

/-- A table without symbols. -/
def empty (file : FileId) : Table := ⟨file, [], []⟩

/-- Record a symbol, unless its name is empty. -/
def push (t : Table) (s : Symbol) : Table :=
  if s.name.isEmpty then t else { t with symbols := t.symbols ++ [s] }

/-- Record an import; the first of a module counts. -/
def addImport (t : Table) (moduleName : String) (line : Nat) : Table :=
  if t.imports.any (·.1 == moduleName) then t
  else { t with imports := t.imports ++ [(moduleName, line)] }

/-- The symbols that a declaration introduces. The parameters of a callable
come before the callable itself. -/
def symbolsOf (file : FileId) (d : Declaration) : List Symbol :=
  let plain (name : String) (kind : SymbolKind) : Symbol :=
    (Symbol.onLine name kind file d.line).inScope d.scope
  match d.form with
  | .scope kind name stop => [(plain name (.ofScope kind)).withStop stop]
  | .callable kind name stop params =>
    params.map (plain · .localVar) ++
      [{ (plain name (.ofCallable kind)).withStop stop with params := params }]
  | .production kind name stop => [(plain name (.ofProduction kind)).withStop stop]
  | .field name => [plain name .field]
  | .phaser name stop => [(plain name .phaser).withStop stop]
  | .varDecl names typeName =>
    names.map fun name => { plain name .localVar with typeName := typeName }
  | .importing _ => []

/-- Record a declaration. -/
def add (t : Table) (d : Declaration) : Table :=
  match d.form with
  | .importing moduleName => t.addImport moduleName d.line
  | _ => (symbolsOf t.file d).foldl push t

/-- The table of a list of declarations. -/
def ofDeclarations (file : FileId) (ds : List Declaration) : Table := ds.foldl add (empty file)

/-- The table of a text. -/
def parse (file : FileId) (text : String) (mode : ParseMode) (classifier : Option Classifier) :
    Table :=
  ofDeclarations file (Declaration.parse mode classifier (Text.lines text))

/-! ## Views -/

/-- The symbols with a name, in the order of discovery. -/
def get (t : Table) (name : String) : List Symbol := t.symbols.filter (·.name == name)

/-- Whether there is a symbol with the name. -/
def contains (t : Table) (name : String) : Bool := t.symbols.any (·.name == name)

/-- The names, in the order of discovery. -/
def names (t : Table) : List String := (t.symbols.map Symbol.name).eraseDups

/-- All symbols, name by name. -/
def grouped (t : Table) : List Symbol := t.names.flatMap t.get

/-- All symbols in the order of their lines. Those on one line are name by
name. -/
def byLine (t : Table) : List Symbol := t.grouped.mergeSort fun a b => a.line ≤ b.line

/-- The first line that imports a module. -/
def importLine? (t : Table) (moduleName : String) : Option Nat :=
  (t.imports.find? (·.1 == moduleName)).map Prod.snd

/-- The number of symbols. -/
def size (t : Table) : Nat := t.symbols.length

/-- Whether there are no symbols. -/
def isEmpty (t : Table) : Bool := t.symbols.isEmpty

end Table

end RakuAtlas
