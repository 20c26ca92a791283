import RakuAtlas.Disk.Tree
import RakuAtlas.Workspace.Config

/-!
# RakuAtlas.Disk.Walk — finding source files

The walk goes through the roots in order, each depth first and by name, and
follows links. It enters no directory twice, so it ends whatever the links are;
a link to a directory above it is an error, as is one that leads nowhere. What
the walk comes to is opened under the path by which it was reached, so all
links on the way count towards the limit.

`visits` is the walk itself, and `collect` picks the source files from it,
each once, up to the limit.
-/

namespace RakuAtlas

namespace Walk

/-- Something that the walk comes to. -/
inductive Visit where
  /-- A path that leads nowhere, or a link to a directory above it. -/
  | failure
  | directory (place : Place)
  /-- A file, with the name under which it was reached. -/
  | file (name : Option String) (place : Place)
deriving DecidableEq, Repr

/-- Something that the walk is still to come to. -/
structure Pending where
  /-- The path by which it is reached. -/
  path : Path
  isRoot : Bool
  isLink : Bool
  /-- The directories above it. -/
  above : List Place
  /-- Where it leads. -/
  target : Except AccessError (Place × Disk.Target)

namespace Pending

/-- A root of the walk. -/
def root (disk : Disk) (path : Path) : Pending := ⟨path, true, false, [], disk.reach path⟩

/-- The name `name` in a directory that stands at `place`. -/
def child (disk : Disk) (directory : Pending) (place : Place) (name : String) : Pending :=
  let isLink := match disk.lookup? (place ++ [name]) with
    | some (.link _) => true
    | _ => false
  let path := directory.path.child name
  ⟨path, false, isLink, place :: directory.above, disk.reach path⟩

/-- The name under which it is reached. -/
def name (p : Pending) : Option String := p.path.fileName?

/-- Whether it is a link to a directory above it. -/
def isLoop (p : Pending) (place : Place) : Bool := p.isLink && p.above.contains place

/-- Whether it is a directory that is not entered because of its name. -/
def isIgnored (config : IndexConfig) (p : Pending) : Bool :=
  !p.isRoot && p.name.any config.isIgnored

end Pending

/-- The rest of the walk. `fresh` are the directories that were not entered
yet. -/
def visitsFrom (disk : Disk) (config : IndexConfig) (fresh : List Place) (pending : List Pending) :
    List Visit :=
  match pending with
  | [] => []
  | p :: more =>
    match p.target with
    | .error _ => .failure :: visitsFrom disk config fresh more
    | .ok (place, .file _) => .file p.name place :: visitsFrom disk config fresh more
    | .ok (place, .directory) =>
      if p.isLoop place then .failure :: visitsFrom disk config fresh more
      else if p.isIgnored config then visitsFrom disk config fresh more
      else if _h : place ∈ fresh then
        .directory place :: visitsFrom disk config (fresh.erase place)
          ((disk.children place).map (Pending.child disk p place) ++ more)
      else visitsFrom disk config fresh more
termination_by (fresh.length, pending.length)
decreasing_by
  all_goals
    first
    | exact Prod.Lex.right _ (by simp)
    | exact Prod.Lex.left _ _ (by
        have := List.length_pos_of_mem ‹place ∈ fresh›
        rw [List.length_erase_of_mem ‹place ∈ fresh›]
        omega)

/-- What the walk through the roots comes to. -/
def visits (disk : Disk) (config : IndexConfig) (roots : List Path) : List Visit :=
  visitsFrom disk config disk.directories (roots.map (Pending.root disk))

/-- What a walk found. -/
structure Outcome where
  /-- The places of the files, in the order of the walk. -/
  files : List Place
  /-- Whether the walk stopped at the limit. -/
  truncated : Bool
  cancelled : Bool
deriving DecidableEq, Repr

/-- Pick the source files that were not found before. A walk that is cancelled
stops at the first thing it comes to. -/
def collect (config : IndexConfig) (cancelled : Bool) (found : List Place) :
    List Visit → Outcome
  | [] => ⟨found, false, false⟩
  | visit :: more =>
    if cancelled then ⟨found, false, true⟩
    else match visit with
      | .file name place =>
        if !name.any config.isSource || found.contains place then
          collect config cancelled found more
        else if config.maxFiles ≤ found.length then ⟨found, true, false⟩
        else collect config cancelled (found ++ [place]) more
      | _ => collect config cancelled found more

end Walk

/-- The source files under the roots. -/
def Disk.walk (disk : Disk) (config : IndexConfig) (roots : List Path) (cancelled : Bool) :
    Walk.Outcome :=
  Walk.collect config cancelled [] (Walk.visits disk config roots)

end RakuAtlas
