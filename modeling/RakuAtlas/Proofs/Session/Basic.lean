import RakuAtlas.Workspace.Host

/-!
# RakuAtlas.Proofs.Session.Basic — sessions

A session is a host beside a disk that changes under it. Its steps are what
the editor reports (`Event`), what it asks (`Request`), and the disk becoming
another one. Nothing ties the three together: the disk may change at any time,
and the editor may report it or not.

A session also records the files whose text on disk changed without the host
being told, which the host itself cannot see. What is shown of all sessions is
shown step by step (`Session.run_invariant`).
-/

namespace RakuAtlas

open Lexical (Classifier)
open Query (SymbolInfo SymbolAt Fold RenameError WorkspaceEdit)

/-- What the editor reports. -/
inductive Event where
  | setFolders (roots : List Path) (cancelled : Bool)
  | setClassifier (classifier : Option Classifier)
  | openDocument (path : Path) (text : String)
  | changeDocument (file : FileId) (text : String)
  | saveDocument (file : FileId)
  | closeDocument (file : FileId)
  | fileChanged (path : Path)
  | fileDeleted (path : Path)

/-- What the editor asks. -/
inductive Request where
  | text (file : FileId)
  | lineCount (file : FileId)
  | symbolTable (file : FileId)
  | outline (file : FileId)
  | resolve (file : FileId) (symbol : String) (line : Nat)
  | definitions (file : FileId) (pos : Pos)
  | references (file : FileId) (pos : Pos) (withDeclaration : Bool)
  | renameTarget (file : FileId) (pos : Pos)
  | rename (file : FileId) (pos : Pos) (newName : String)
  | documentSymbols (file : FileId)
  | workspaceSymbols (start : String) (limit : Option Nat)
  | folds (file : FileId)

/-- What the host answers. -/
inductive Reply where
  | text (text : Option String)
  | lineCount (count : Option Nat)
  | table (table : Option Table)
  | resolution (resolution : Resolution)
  | definitions (locations : List Location)
  | references (locations : Option (List Location))
  | renameTarget (target : Option SymbolAt)
  | rename (edit : Except RenameError (Option WorkspaceEdit))
  | symbols (symbols : List SymbolInfo)
  | folds (folds : List Fold)

namespace Host

/-- What an event makes of the host. -/
def handle (host : Host) (disk : Disk) : Event → Host
  | .setFolders roots cancelled => (host.setFolders disk roots cancelled).2
  | .setClassifier classifier => host.setClassifier classifier
  | .openDocument path text => (host.openDocument disk path text).2
  | .changeDocument file text => host.changeDocument file text
  | .saveDocument file => host.saveDocument disk file
  | .closeDocument file => host.closeDocument disk file
  | .fileChanged path => (host.fileChanged disk path).2
  | .fileDeleted path => host.fileDeleted path

/-- The answer to a request, and the host after it. -/
def reply (host : Host) (disk : Disk) : Request → Reply × Host
  | .text file => (host.text disk file).map .text id
  | .lineCount file => (host.lineCount disk file).map .lineCount id
  | .symbolTable file => (host.symbolTable disk file).map .table id
  | .outline file => (.table (host.outline disk file), host)
  | .resolve file symbol line => (host.resolve disk file symbol line).map .resolution id
  | .definitions file pos => (host.definitions disk file pos).map .definitions id
  | .references file pos withDeclaration =>
    (host.references disk file pos withDeclaration).map .references id
  | .renameTarget file pos => (host.renameTarget disk file pos).map .renameTarget id
  | .rename file pos newName => (host.rename disk file pos newName).map .rename id
  | .documentSymbols file => (.symbols (host.documentSymbols disk file), host)
  | .workspaceSymbols start limit => (.symbols (host.workspaceSymbols start limit), host)
  | .folds file => (host.folds disk file).map .folds id

end Host

/-- The text of a file on disk, whether it is open or not. -/
def Files.diskText? (files : Files) (disk : Disk) (file : FileId) : Option String :=
  (files.path? file).bind fun path => (disk.read path).toOption

/-- The files that an event is news of. -/
def Event.announces (files : Files) : Event → List FileId
  | .fileChanged path | .fileDeleted path => (files.lookup? path).toList
  | _ => []

/-- A host and the disk beside it. -/
structure Session where
  host : Host
  disk : Disk
  /-- The files whose text on disk changed since the host was last told. -/
  unannounced : List FileId

/-- A step of a session. -/
inductive Step where
  | event (event : Event)
  | request (request : Request)
  /-- The disk becomes another one. -/
  | write (disk : Disk)

namespace Session

/-- The beginning of a session. -/
def start (config : HostConfig) (disk : Disk) : Session := ⟨.new config, disk, []⟩

/-- The known files with another text on the new disk. -/
def affected (s : Session) (disk : Disk) : List FileId :=
  s.host.files.all.filter fun file =>
    s.host.files.diskText? s.disk file ≠ s.host.files.diskText? disk file

/-- The session after a step. -/
def step (s : Session) : Step → Session
  | .event event =>
    { s with
      host := s.host.handle s.disk event
      unannounced := s.unannounced.filter (!(event.announces s.host.files).contains ·) }
  | .request request => { s with host := (s.host.reply s.disk request).2 }
  | .write disk => { s with disk := disk, unannounced := s.unannounced ++ s.affected disk }

/-- The session after several steps. -/
def run (s : Session) (steps : List Step) : Session := steps.foldl step s

/-- What holds at the beginning and is kept by every step holds all along a
session. -/
theorem run_invariant {P : Session → Prop} (hstep : ∀ s step, P s → P (s.step step))
    {s : Session} (h : P s) (steps : List Step) : P (s.run steps) := by
  induction steps generalizing s with
  | nil => exact h
  | cons step more ih => exact ih (hstep s step h)

/-- The answers given along several steps, in order. -/
def replies (s : Session) : List Step → List Reply
  | [] => []
  | .request request :: more =>
    (s.host.reply s.disk request).1 :: (s.step (.request request)).replies more
  | other :: more => (s.step other).replies more

/-- Every request finds the host told of all changes on disk. -/
def Prompt (s : Session) : List Step → Prop
  | [] => True
  | .request request :: more => s.unannounced = [] ∧ (s.step (.request request)).Prompt more
  | other :: more => (s.step other).Prompt more

end Session

end RakuAtlas
