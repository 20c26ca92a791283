import RakuAtlas.Symbol.Index
import RakuAtlas.Symbol.ModuleMap
import RakuAtlas.Symbol.Name

/-!
# RakuAtlas.Symbol.Resolve — from a use to its declarations

A symbol that is used in a document is looked up in three tiers: the table of
the document, then modules, then the index of the workspace. The first tier
that has something gives the answer; tiers are never mixed.

A variable resolves to its nearest declaration at or before the line of use.
Anything else resolves to all declarations of that name, so that the
candidates of a multi come together.
-/

namespace RakuAtlas

open RakuAtlas.Symbol (SymbolName)

/-- The tiers of resolution. -/
inductive Tier where
  | document
  | module
  | workspace
deriving DecidableEq, Repr

/-- The declarations of a symbol, from one tier, or nothing. -/
inductive Resolution where
  | found (tier : Tier) (first : Symbol) (others : List Symbol)
  | notFound
deriving DecidableEq, Repr

namespace Resolution

/-- What a list of symbols from one tier amounts to, and otherwise `next`. -/
def ofList (tier : Tier) (symbols : List Symbol) (next : Resolution) : Resolution :=
  match symbols with
  | first :: others => .found tier first others
  | [] => next

/-- The declarations. -/
def symbols : Resolution → List Symbol
  | .found _ first others => first :: others
  | .notFound => []

/-- The first declaration. -/
def primary? : Resolution → Option Symbol
  | .found _ first _ => some first
  | .notFound => none

/-- Whether there is a declaration. -/
def isFound : Resolution → Bool
  | .found .. => true
  | .notFound => false

end Resolution

/-- What a symbol is looked up in. -/
structure Scopes where
  table : Table
  modules : Option ModuleMap
  index : Option Index

namespace Scopes

/-- The nearest declaration of a variable at or before a line; of several on
one line the first. -/
def nearest? (symbols : List Symbol) (line : Nat) : Option Symbol :=
  symbols.foldl
    (fun best s =>
      if line < s.line then best
      else match best with
        | some b => if b.line < s.line then some s else best
        | none => some s)
    none

/-- The declarations of a variable in the document. -/
def localVariable (scopes : Scopes) (symbol : String) (line : Nat) : List Symbol :=
  (nearest? (scopes.table.get symbol) line).toList

/-- The declarations of anything else in the document: those of that name, or
for a qualified name those of its last part inside that scope. -/
def localOthers (scopes : Scopes) (symbol : String) : List Symbol :=
  match scopes.table.get symbol with
  | first :: others => first :: others
  | [] =>
    match (SymbolName.parse symbol.toList).splitQualified? with
    | some (scope, name) =>
      (scopes.table.get (String.ofList name)).filter (·.scope == String.ofList scope)
    | none => []

/-- The module of that name: one that was discovered, or else one that the
document imports. -/
def moduleNamed (scopes : Scopes) (symbol : String) : List Symbol :=
  match scopes.modules.bind (·.symbol? symbol) with
  | some found => [found]
  | none =>
    match scopes.table.importLine? symbol with
    | some line => [Symbol.onLine symbol .importing scopes.table.file line]
    | none => []

/-- The declarations of a symbol that is used on a line. -/
def resolve (scopes : Scopes) (symbol : String) (line : Nat) : Resolution :=
  if symbol.isEmpty then .notFound
  else
    let inDocument := if (SymbolName.parse symbol.toList).hasSigil then
        scopes.localVariable symbol line
      else scopes.localOthers symbol
    let inIndex := match scopes.index with
      | some index => index.find symbol
      | none => []
    .ofList .document inDocument <|
      .ofList .module (scopes.moduleNamed symbol) <|
        .ofList .workspace inIndex .notFound

end Scopes

end RakuAtlas
