import RakuAtlas.Disk.Tree
import RakuAtlas.Symbol.Index

/-!
# RakuAtlas.Workspace.Files — numbered files and open buffers

Every path gets a number when it is first seen and keeps it. The text of a
file is what the editor has in its buffer, if it is open there, and otherwise
what is on disk.
-/

namespace RakuAtlas

/-- Why a file has no text. -/
inductive FileError where
  | unreadable (path : Path) (reason : AccessError)
  | unknownFile (file : FileId)

namespace FileError

/-- The text of the error for a file that has no path. -/
def unknownMessage (file : FileId) : String := s!"unknown file {file.render}"

end FileError

/-- The files known so far. -/
structure Files where
  /-- The paths, the number of each being its position. -/
  paths : List Path
  /-- The texts of open buffers. -/
  buffers : List (FileId × String)

namespace Files

/-- No files. -/
def empty : Files := ⟨[], []⟩

/-- The number of a path that was seen before. -/
def lookup? (files : Files) (path : Path) : Option FileId :=
  (files.paths.findIdx? (·.same path)).map FileId.mk

/-- The number of a path, which is a new one if the path is new. -/
def number (files : Files) (path : Path) : FileId × Files :=
  match files.lookup? path with
  | some file => (file, files)
  | none => (⟨files.paths.length⟩, { files with paths := files.paths ++ [path] })

/-- Number several paths in order. -/
def numberAll (files : Files) : List Path → List FileId × Files
  | [] => ([], files)
  | path :: more =>
    let (file, files) := files.number path
    let (others, files) := files.numberAll more
    (file :: others, files)

/-- The path of a file, as it was first spelled. -/
def path? (files : Files) (file : FileId) : Option Path := files.paths[file.index]?

/-- The text of a file's buffer. -/
def buffer? (files : Files) (file : FileId) : Option String :=
  (files.buffers.find? (·.1 == file)).map Prod.snd

/-- Drop a file's buffer. -/
def dropBuffer (files : Files) (file : FileId) : Files :=
  { files with buffers := files.buffers.filter (·.1 != file) }

/-- Give a file a buffer, in place of one it may have. -/
def setBuffer (files : Files) (file : FileId) (text : String) : Files :=
  { files with buffers := (file, text) :: (files.dropBuffer file).buffers }

/-- The current text of a file: its buffer, or else what is on disk. -/
def read (files : Files) (disk : Disk) (file : FileId) : Except FileError String :=
  match files.buffer? file with
  | some text => .ok text
  | none =>
    match files.path? file with
    | none => .error (.unknownFile file)
    | some path =>
      match disk.read path with
      | .ok text => .ok text
      | .error reason => .error (.unreadable path reason)

/-- The current text of a file, if it has one. -/
def text? (files : Files) (disk : Disk) (file : FileId) : Option String :=
  (files.read disk file).toOption

/-- The number of files. -/
def size (files : Files) : Nat := files.paths.length

/-- Whether no file is known. -/
def isEmpty (files : Files) : Bool := files.paths.isEmpty

/-- All files, in ascending order. -/
def all (files : Files) : List FileId := (List.range files.size).map FileId.mk

end Files

/-- Read a file again and replace its entries in the index. A file without a
text has none. -/
def Index.refresh (index : Index) (files : Files) (disk : Disk) (file : FileId) : Index :=
  match files.text? disk file with
  | some text => index.enter (Table.parse file text .workspaceIndex (some .raku))
  | none => index.removeFile file

end RakuAtlas
