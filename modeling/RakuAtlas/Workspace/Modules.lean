import RakuAtlas.Disk.Walk
import RakuAtlas.Symbol.ModuleMap
import RakuAtlas.Workspace.Files

/-!
# RakuAtlas.Workspace.Modules — finding modules

A module file below an include path defines the module that its path spells:
`Foo/Bar.rakumod` defines `Foo::Bar`. Earlier include paths win.
-/

namespace RakuAtlas

namespace ModuleMap

/-- Extensions of files that define modules. -/
def moduleExtensions : List String := ["rakumod", "pm6"]

/-- The name of the module that the file at `place` defines, below `root`. -/
def moduleName? (root place : Place) : Option String := do
  let below ← root.isPrefixOf? place
  let last ← below.getLast?
  let path : Path := ⟨"/".intercalate (below.dropLast ++ [FileName.stem last])⟩
  match path.parts with
  | [] => none
  | parts => some ("::".intercalate (parts.map PathPart.render))

/-- Add the modules in a list of files below `root`. Only files that define a
module get a number. -/
def addFiles (root : Place) (m : ModuleMap) (files : Files) : List Place → ModuleMap × Files
  | [] => (m, files)
  | place :: more =>
    match moduleName? root place with
    | some name =>
      let (file, files) := files.number place.path
      (m.insert name file).addFiles root files more
    | none => m.addFiles root files more

/-- Add the modules below an include path. One that leads nowhere has none. -/
def addPath (disk : Disk) (config : IndexConfig) (m : ModuleMap) (files : Files) (path : Path) :
    ModuleMap × Files :=
  match disk.resolve path with
  | .ok (root, _) =>
    let found := disk.walk { config with extensions := moduleExtensions } [root.path] false
    m.addFiles root files found.files
  | .error _ => (m, files)

/-- The modules below the include paths. -/
def discover (disk : Disk) (config : IndexConfig) (files : Files) (paths : List Path) :
    ModuleMap × Files :=
  paths.foldl (fun (m, files) path => m.addPath disk config files path) (.empty, files)

end ModuleMap

end RakuAtlas
