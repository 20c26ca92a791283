import RakuAtlas.Disk.Path

/-!
# RakuAtlas.Workspace.Config — what is walked and indexed

Limits and filters of the walk through a workspace, and the paths under which
modules are looked for.
-/

namespace RakuAtlas

/-- Limits and filters of the walk and of the index. -/
structure IndexConfig where
  /-- The walk stops when it has this many files. -/
  maxFiles : Nat := 5000
  /-- Indexing stops when there are this many entries. -/
  maxSymbols : Nat := 100000
  /-- Names of directories that are not entered. -/
  ignoredDirs : List String :=
    [".git", ".svn", ".hg", "node_modules", ".idea", ".vscode", "target", "build", "dist"]
  /-- Extensions of source files, without the dot. -/
  extensions : List String := ["raku", "rakumod", "rakutest", "rakudoc", "pm6", "p6", "t6"]
  /-- Whether all files are parsed before the first is indexed. -/
  parallel : Bool := false
deriving DecidableEq, Repr

namespace IndexConfig

/-- Whether directories of that name are not entered. -/
def isIgnored (config : IndexConfig) (name : String) : Bool := config.ignoredDirs.contains name

/-- Whether two words are the same but for the case of ASCII letters. -/
def sameLetters (a b : String) : Bool := a.toList.map Char.toLower == b.toList.map Char.toLower

/-- Whether a file of that name is a source file. -/
def isSource (config : IndexConfig) (name : String) : Bool :=
  match FileName.extension? name with
  | some ext => config.extensions.any (sameLetters · ext)
  | none => false

/-- Whether a path is that of a source file. -/
def isSourcePath (config : IndexConfig) (path : Path) : Bool :=
  path.fileName?.any config.isSource

end IndexConfig

/-- What stands for each root of the workspace in an include path. -/
def workspaceFolder : String := "$workspaceFolder"

/-- The configuration of a host. -/
structure HostConfig where
  index : IndexConfig := {}
  /-- The paths under which modules are looked for. -/
  includePaths : List String := [workspaceFolder ++ "/lib"]
  /-- How many symbols the cache of parsed documents may hold. -/
  cacheBudget : Nat := 50000
deriving DecidableEq, Repr

namespace HostConfig

/-- The path with a root in place of each placeholder. -/
def expand (path : String) (root : Path) : Path :=
  ⟨String.ofList (root.spelling.toList.intercalate
    (Text.splitOnList workspaceFolder.toList path.toList))⟩

/-- Add the paths that one include path stands for. With the placeholder it
stands for one path per root, and those already there are left out. Without,
it stands for itself and is left out if it is already spelled so. -/
def addIncludePath (roots : List Path) (known : List Path) (path : String) : List Path :=
  if Text.occursIn workspaceFolder.toList path.toList then
    roots.foldl
      (fun known root =>
        let expanded := expand path root
        if known.any (·.same expanded) then known else known ++ [expanded])
      known
  else if known.any (·.spelling == path) then known
  else known ++ [⟨path⟩]

/-- The paths under which modules are looked for, given the roots. -/
def resolveIncludePaths (config : HostConfig) (roots : List Path) : List Path :=
  config.includePaths.foldl (addIncludePath roots) []

end HostConfig

end RakuAtlas
