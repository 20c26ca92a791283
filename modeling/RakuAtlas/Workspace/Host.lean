import RakuAtlas.Query.Folding
import RakuAtlas.Query.Outline
import RakuAtlas.Query.Rename
import RakuAtlas.Workspace.Cache
import RakuAtlas.Workspace.Load
import RakuAtlas.Workspace.Modules

/-!
# RakuAtlas.Workspace.Host — the state behind an editor

A host keeps what an editor tells it: the folders of the workspace, the
documents that are open, and what happened to files on disk. It answers
queries about any file it knows.

* **Events** (`setFolders`, `setClassifier`, `openDocument`, `changeDocument`,
  `saveDocument`, `closeDocument`, `fileChanged`, `fileDeleted`) change the
  state.
* **Queries** (`symbolTable`, `outline`, `resolve`, `definitions`,
  `references`, `renameTarget`, `rename`, `documentSymbols`,
  `workspaceSymbols`, `folds`) change nothing but the cache of parsed
  documents.

The disk is not part of the state: every event and query is given the disk as
it is at that time.
-/

namespace RakuAtlas

open Lexical (Classifier)
open Query (SymbolInfo SymbolAt Fold RenameError WorkspaceEdit)

/-- An open document: its buffer and the tables parsed from it. -/
structure OpenDocument where
  text : String
  navigation : Table
  outline : Table

/-- The state behind an editor. -/
structure Host where
  config : HostConfig
  roots : List Path
  files : Files
  index : Index
  modules : ModuleMap
  /-- The open documents. -/
  documents : List (FileId × OpenDocument)
  /-- The tables of documents that are not open. -/
  cache : Cache
  classifier : Option Classifier

namespace Host

/-- A host before the first event. -/
def new (config : HostConfig) : Host :=
  ⟨config, [], .empty, .empty, .empty, [], .empty config.cacheBudget, some .raku⟩

/-- The open document of a file. -/
def document? (host : Host) (file : FileId) : Option OpenDocument :=
  (host.documents.find? (·.1 == file)).map Prod.snd

/-! ## Events -/

/-- Replace the classifier. Cached tables are dropped. -/
def setClassifier (host : Host) (classifier : Option Classifier) : Host :=
  { host with classifier := classifier, cache := host.cache.clear }

/-- Bring the index up to date with a file: with its buffer, under the
classifier in force, if it is open, and otherwise with the disk. -/
def reindex (host : Host) (disk : Disk) (file : FileId) : Host :=
  match host.document? file with
  | some doc =>
    { host with
      index := host.index.enter (Table.parse file doc.text .workspaceIndex host.classifier) }
  | none => { host with index := host.index.refresh host.files disk file }

/-- Build index and modules anew for these folders. Open documents are indexed
from their buffers, also outside the folders. -/
def setFolders (host : Host) (disk : Disk) (roots : List Path) (cancelled : Bool) :
    Report × Host :=
  let (index, report, files) := Index.load disk host.config.index host.files roots cancelled
  let host := { host with roots := roots, cache := host.cache.clear, index := index, files := files }
  let host := (host.documents.map Prod.fst).foldl (fun host file => host.reindex disk file) host
  let (modules, files) :=
    ModuleMap.discover disk host.config.index host.files (host.config.resolveIncludePaths roots)
  (report, { host with modules := modules, files := files })

/-- Take over the text of a file's buffer and parse it. -/
def updateDocument (host : Host) (file : FileId) (text : String) : Host :=
  let doc : OpenDocument :=
    ⟨text, Table.parse file text .navigation host.classifier,
      Table.parse file text .outline host.classifier⟩
  { host with
    files := host.files.setBuffer file text
    cache := host.cache.remove file
    documents := (file, doc) :: host.documents.filter (·.1 != file) }

/-- Open a document and index it. -/
def openDocument (host : Host) (disk : Disk) (path : Path) (text : String) : FileId × Host :=
  let (file, files) := host.files.number path
  (file, ({ host with files := files }.updateDocument file text).reindex disk file)

/-- The text of a buffer changed. The index waits until it is saved. -/
def changeDocument (host : Host) (file : FileId) (text : String) : Host :=
  host.updateDocument file text

/-- A buffer was saved. -/
def saveDocument (host : Host) (disk : Disk) (file : FileId) : Host := host.reindex disk file

/-- Forget a buffer. The index goes back to what is on disk. -/
def closeDocument (host : Host) (disk : Disk) (file : FileId) : Host :=
  let files := host.files.dropBuffer file
  { host with
    documents := host.documents.filter (·.1 != file)
    files := files
    index := host.index.refresh files disk file }

/-- A file changed on disk. If it is open, its buffer goes on to count. -/
def fileChanged (host : Host) (disk : Disk) (path : Path) : FileId × Host :=
  let (file, files) := host.files.number path
  let host := { host with files := files, cache := host.cache.remove file }
  (file, if (host.document? file).isSome then host else host.reindex disk file)

/-- A file was deleted: forget what is known of it but its number. -/
def fileDeleted (host : Host) (path : Path) : Host :=
  match host.files.lookup? path with
  | none => host
  | some file =>
    { host with
      index := host.index.removeFile file
      cache := host.cache.remove file
      documents := host.documents.filter (·.1 != file)
      files := host.files.dropBuffer file }

/-! ## Queries -/

/-- What a search may look at. -/
def world (host : Host) (disk : Disk) : Query.World :=
  ⟨disk, host.files, host.index, host.modules, host.classifier⟩

/-- The text and the table of a file: those of its buffer, or else those of
the disk, where the table may come from the cache. -/
def document (host : Host) (disk : Disk) (file : FileId) : Option Query.Document × Host :=
  match host.document? file with
  | some doc => (some ⟨doc.navigation, doc.text⟩, host)
  | none =>
    match host.files.text? disk file with
    | none => (none, host)
    | some text =>
      match host.cache.get? file with
      | (some table, cache) => (some ⟨table, text⟩, { host with cache := cache })
      | (none, _) =>
        let table := Table.parse file text .navigation host.classifier
        (some ⟨table, text⟩, { host with cache := host.cache.insert table })

/-- The text of a file. -/
def text (host : Host) (disk : Disk) (file : FileId) : Option String × Host :=
  let (doc, host) := host.document disk file
  (doc.map Query.Document.text, host)

/-- The number of lines of a file. -/
def lineCount (host : Host) (disk : Disk) (file : FileId) : Option Nat × Host :=
  let (text, host) := host.text disk file
  (text.map fun text => (Text.LineIndex.ofText text).size, host)

/-- The table of a file, variables included. -/
def symbolTable (host : Host) (disk : Disk) (file : FileId) : Option Table × Host :=
  let (doc, host) := host.document disk file
  (doc.map Query.Document.table, host)

/-- The table of a file with the blocks of its declarations. -/
def outline (host : Host) (disk : Disk) (file : FileId) : Option Table :=
  match host.document? file with
  | some doc => some doc.outline
  | none => (host.files.text? disk file).map fun text =>
      Table.parse file text .outline host.classifier

/-- The declarations of a symbol that is used on a line of a file. -/
def resolve (host : Host) (disk : Disk) (file : FileId) (symbol : String) (line : Nat) :
    Resolution × Host :=
  match host.document disk file with
  | (some doc, host) => ((doc.scopes (host.world disk)).resolve symbol line, host)
  | (none, host) => (.notFound, host)

/-- The declarations of what the position is on. -/
def definitions (host : Host) (disk : Disk) (file : FileId) (pos : Pos) : List Location × Host :=
  match host.document disk file with
  | (some doc, host) => (Query.definitions (host.world disk) doc pos, host)
  | (none, host) => ([], host)

/-- The references to what the position is on. -/
def references (host : Host) (disk : Disk) (file : FileId) (pos : Pos) (withDeclaration : Bool) :
    Option (List Location) × Host :=
  match host.document disk file with
  | (some doc, host) =>
    (Query.referenceLocations? (host.world disk) doc pos withDeclaration, host)
  | (none, host) => (none, host)

/-- The symbol that the position is on, if it may be renamed. -/
def renameTarget (host : Host) (disk : Disk) (file : FileId) (pos : Pos) :
    Option SymbolAt × Host :=
  match host.document disk file with
  | (some doc, host) => (Query.renameTarget? doc.text pos, host)
  | (none, host) => (none, host)

/-- The edits that rename what the position is on. -/
def rename (host : Host) (disk : Disk) (file : FileId) (pos : Pos) (newName : String) :
    Except RenameError (Option WorkspaceEdit) × Host :=
  match host.document disk file with
  | (some doc, host) => (Query.rename (host.world disk) doc pos newName, host)
  | (none, host) => (.error .unknownDocument, host)

/-- The outline of a file. -/
def documentSymbols (host : Host) (disk : Disk) (file : FileId) : List SymbolInfo :=
  match host.outline disk file with
  | some table => Query.documentSymbols table
  | none => []

/-- The symbols of the workspace that begin with `start`. -/
def workspaceSymbols (host : Host) (start : String) (limit : Option Nat) : List SymbolInfo :=
  Query.workspaceSymbols host.index start limit

/-- What can be folded in a file. -/
def folds (host : Host) (disk : Disk) (file : FileId) : List Fold × Host :=
  match host.outline disk file with
  | none => ([], host)
  | some table =>
    match host.text disk file with
    | (some text, host) => (Query.folds table text host.classifier, host)
    | (none, host) => ([], host)

end Host

end RakuAtlas
