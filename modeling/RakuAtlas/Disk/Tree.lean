import RakuAtlas.Disk.Path

/-!
# RakuAtlas.Disk.Tree — files, directories and links

A `Disk` lists what there is, each under its place: the names of the
directories from the root down. The root itself is always there.

* `lookup? place` says what stands at a place;
* `resolve path` follows a path from the root, links included, and says at
  which place it ends and what is there, or why it does not;
* `reach path` is the same for a path that is opened, which has a limit on its
  length;
* `read` gives the text of a file;
* `write`, `unlink` change the disk.
-/

namespace RakuAtlas

/-- The names from the root down. -/
abbrev Place := List String

/-- The path of a place. -/
def Place.path (place : Place) : Path := ⟨"/" ++ "/".intercalate place⟩

/-- What stands at a place. -/
inductive Disk.Item where
  | directory
  /-- A file with its text; there is none if its bytes are not UTF-8. -/
  | file (text : Option String)
  | link (target : Path)
deriving Repr

/-- What a path that is followed to its end leads to. -/
inductive Disk.Target where
  | directory
  | file (text : Option String)
deriving DecidableEq, Repr

/-- Why a path leads nowhere, or a file has no text. -/
inductive AccessError where
  | notFound
  | notADirectory
  | isADirectory
  | notText
  | tooManyLinks
  | nameTooLong
  /-- No path has a NUL character in it. -/
  | malformed
deriving DecidableEq, Repr

/-- All files, directories and links. -/
structure Disk where
  items : List (Place × Disk.Item)
deriving Repr

namespace Disk

/-- A disk with nothing but its root. -/
def empty : Disk := ⟨[]⟩

/-- What stands at a place. -/
def lookup? (disk : Disk) (place : Place) : Option Item :=
  if place = [] then some .directory
  else (disk.items.find? (·.1 == place)).map Prod.snd

/-- The places of all directories. -/
def directories (disk : Disk) : List Place :=
  [] :: disk.items.filterMap fun (place, item) =>
    match item with
    | .directory => some place
    | _ => none

/-- The names in a directory, in ascending order. -/
def children (disk : Disk) (place : Place) : List String :=
  let names := disk.items.filterMap fun (other, _) =>
    if other ≠ [] ∧ other.dropLast = place then other.getLast? else none
  names.mergeSort fun a b => a ≤ b

/-! ## Following paths -/

/-- How many links a path may follow. -/
def linkLimit : Nat := 40

/-- How many bytes a name may have. -/
def nameLimit : Nat := 255

/-- How many bytes a path may have that is opened. -/
def pathLimit : Nat := 4095

/-- Follow the steps of a path from a directory on. -/
def follow (disk : Disk) (links : Nat) (place : Place) (parts : List PathPart) :
    Except AccessError (Place × Target) :=
  match parts with
  | [] => .ok (place, .directory)
  | .root :: rest => disk.follow links [] rest
  | .here :: rest => disk.follow links place rest
  | .up :: rest => disk.follow links place.dropLast rest
  | .name text :: rest =>
    let next := place ++ [text]
    if nameLimit < text.utf8ByteSize then .error .nameTooLong
    else match disk.lookup? next with
      | none => .error .notFound
      | some .directory => disk.follow links next rest
      | some (.file content) =>
        if rest = [] then .ok (next, .file content) else .error .notADirectory
      | some (.link target) =>
        match links with
        | 0 => .error .tooManyLinks
        | k + 1 => disk.follow k place (target.steps ++ rest)
termination_by (links, parts.length)

/-- Where a path leads. A path that is not given from the root leads nowhere. -/
def resolve (disk : Disk) (path : Path) : Except AccessError (Place × Target) :=
  if path.isWellFormed then
    match path.steps with
    | .root :: steps => disk.follow linkLimit [] steps
    | _ => .error .notFound
  else .error .malformed

/-- Where a path leads that is opened. -/
def reach (disk : Disk) (path : Path) : Except AccessError (Place × Target) :=
  if path.isWellFormed && pathLimit < path.spelling.utf8ByteSize then .error .nameTooLong
  else disk.resolve path

/-- The text of the file that a path leads to. -/
def read (disk : Disk) (path : Path) : Except AccessError String :=
  match disk.reach path with
  | .ok (_, .file (some text)) => .ok text
  | .ok (_, .file none) => .error .notText
  | .ok (_, .directory) => .error .isADirectory
  | .error e => .error e

/-! ## Changes -/

/-- Put something at a place, in place of what was there. -/
def set (disk : Disk) (place : Place) (item : Item) : Disk :=
  if place = [] then disk
  else if disk.items.any (·.1 == place) then
    ⟨disk.items.map fun entry => if entry.1 == place then (place, item) else entry⟩
  else ⟨disk.items ++ [(place, item)]⟩

/-- Drop what stands at a place. -/
def erase (disk : Disk) (place : Place) : Disk := ⟨disk.items.filter (·.1 != place)⟩

/-- Follow the parts of a path from a directory on and make the directories
that are missing. `none` if something else is in the way. -/
def makeDirectories (disk : Disk) (place : Place) : List PathPart → Option (Disk × Place)
  | [] => some (disk, place)
  | .root :: rest => disk.makeDirectories [] rest
  | .here :: rest => disk.makeDirectories place rest
  | .up :: rest => disk.makeDirectories place.dropLast rest
  | .name text :: rest =>
    match disk.follow linkLimit place [.name text] with
    | .ok (next, .directory) => disk.makeDirectories next rest
    | .ok (_, .file _) => none
    | .error _ =>
      let next := place ++ [text]
      if (disk.lookup? next).isSome then none
      else (disk.set next .directory).makeDirectories next rest

/-- Where a file goes that is written to a path, from a directory on. The last
name may be missing, also at the end of a link. -/
def landing? (disk : Disk) (links : Nat) (place : Place) (parts : List PathPart) :
    Option Place :=
  match parts with
  | [] => none
  | .root :: rest => disk.landing? links [] rest
  | .here :: rest => disk.landing? links place rest
  | .up :: rest => disk.landing? links place.dropLast rest
  | .name text :: rest =>
    let next := place ++ [text]
    match disk.lookup? next with
    | some .directory => disk.landing? links next rest
    | some (.link target) =>
      match links with
      | 0 => none
      | k + 1 => disk.landing? k place (target.steps ++ rest)
    | _ => if rest = [] then some next else none
termination_by (links, parts.length)

/-- Put something at a path, and make the directories above it. A file that is
written at a link goes where the link leads. Nothing changes if something is in
the way. -/
def write (disk : Disk) (path : Path) : Item → Disk
  | .directory =>
    match disk.makeDirectories [] path.parts with
    | some (disk, _) => disk
    | none => disk
  | .file text =>
    match disk.makeDirectories [] path.parts.dropLast with
    | some (disk, _) =>
      match disk.landing? linkLimit [] path.steps with
      | some place => disk.set place (.file text)
      | none => disk
    | none => disk
  | .link target =>
    match path.parts.getLast?, disk.makeDirectories [] path.parts.dropLast with
    | some (.name text), some (disk, place) =>
      if (disk.lookup? (place ++ [text])).isSome then disk
      else disk.set (place ++ [text]) (.link target)
    | _, _ => disk

/-- Remove the file or link at a path. -/
def unlink (disk : Disk) (path : Path) : Disk :=
  match path.parts.getLast?, disk.resolve (parent path) with
  | some (.name text), .ok (place, .directory) =>
    match disk.lookup? (place ++ [text]) with
    | some (.file _) | some (.link _) => disk.erase (place ++ [text])
    | _ => disk
  | _, _ => disk
where
  /-- The path without its last part. -/
  parent (path : Path) : Path :=
    ⟨"/" ++ "/".intercalate ((path.parts.dropLast.drop 1).map PathPart.render)⟩

end Disk

end RakuAtlas
