import RakuAtlas.Disk.Walk
import RakuAtlas.Workspace.Files

/-!
# RakuAtlas.Workspace.Load — indexing a workspace

The files that the walk finds are numbered and indexed in its order, one at a
time, until there are too many symbols. Files that cannot be read are passed
over. Parsing all of them before the first is indexed gives the same index.
-/

namespace RakuAtlas

/-- What stopped the indexing of a workspace. -/
inductive Ceiling where
  | files
  | symbols
deriving DecidableEq, Repr

/-- What the indexing of a workspace did. -/
structure Report where
  filesDiscovered : Nat
  filesIndexed : Nat
  symbolsIndexed : Nat
  ceiling : Option Ceiling
  cancelled : Bool
deriving DecidableEq, Repr

namespace Load

/-- An index in the making. -/
structure Progress where
  index : Index
  filesIndexed : Nat
  /-- Whether files were left out because there were too many symbols. -/
  full : Bool
deriving DecidableEq, Repr

/-- Enter tables in order until there are too many symbols. A file that could
not be read has no table. -/
def enterTables (maxSymbols : Nat) (progress : Progress) : List (Option Table) → Progress
  | [] => progress
  | table :: more =>
    if maxSymbols ≤ progress.index.size then { progress with full := true }
    else match table with
      | some table =>
        enterTables maxSymbols
          { progress with
            index := progress.index.enter table, filesIndexed := progress.filesIndexed + 1 }
          more
      | none => enterTables maxSymbols progress more

/-- Parse and enter files in order until there are too many symbols. -/
def enterFiles (parse : FileId → Option Table) (maxSymbols : Nat) (progress : Progress) :
    List FileId → Progress
  | [] => progress
  | file :: more =>
    if maxSymbols ≤ progress.index.size then { progress with full := true }
    else match parse file with
      | some table =>
        enterFiles parse maxSymbols
          { progress with
            index := progress.index.enter table, filesIndexed := progress.filesIndexed + 1 }
          more
      | none => enterFiles parse maxSymbols progress more

/-- The table of a file for the index, if the file can be read. -/
def tableOf? (disk : Disk) (files : Files) (file : FileId) : Option Table :=
  (files.text? disk file).map fun text => Table.parse file text .workspaceIndex (some .raku)

end Load

/-- Index the files under the roots. -/
def Index.load (disk : Disk) (config : IndexConfig) (files : Files) (roots : List Path)
    (cancelled : Bool) : Index × Report × Files :=
  let walk := disk.walk config roots cancelled
  let (ids, files) := files.numberAll (walk.files.map Place.path)
  let start : Load.Progress := ⟨.empty, 0, false⟩
  let progress := if walk.cancelled then start
    else if config.parallel then
      Load.enterTables config.maxSymbols start (ids.map (Load.tableOf? disk files))
    else Load.enterFiles (Load.tableOf? disk files) config.maxSymbols start ids
  let ceiling := if progress.full then some .symbols
    else if walk.truncated then some .files
    else none
  (progress.index,
    ⟨walk.files.length, progress.filesIndexed, progress.index.size, ceiling, walk.cancelled⟩,
    files)

end RakuAtlas
