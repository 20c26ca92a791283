import RakuAtlas.Symbol.Basic

/-!
# RakuAtlas.Symbol.ModuleMap — which file defines a module

A map from the names of modules to files, in the order of discovery. The first
file found for a name keeps it.
-/

namespace RakuAtlas

/-- The files that define modules. -/
structure ModuleMap where
  entries : List (String × FileId)
deriving DecidableEq, Repr

namespace ModuleMap

/-- A map without modules. -/
def empty : ModuleMap := ⟨[]⟩

/-- The file that defines a module. -/
def get? (m : ModuleMap) (name : String) : Option FileId :=
  (m.entries.find? (·.1 == name)).map Prod.snd

/-- Add a module, unless its name is known. -/
def insert (m : ModuleMap) (name : String) (file : FileId) : ModuleMap :=
  if (m.get? name).isSome then m else ⟨m.entries ++ [(name, file)]⟩

/-- The module as a symbol at the top of its file. -/
def symbol? (m : ModuleMap) (name : String) : Option Symbol :=
  (m.get? name).map fun file =>
    { Symbol.onLine name .module file 0 with origin := .moduleDiscovery }

/-- The number of modules. -/
def size (m : ModuleMap) : Nat := m.entries.length

/-- Whether there are no modules. -/
def isEmpty (m : ModuleMap) : Bool := m.entries.isEmpty

end ModuleMap

end RakuAtlas
