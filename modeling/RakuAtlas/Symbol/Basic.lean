import RakuAtlas.Declaration.Basic
import RakuAtlas.Text.Chars
import RakuAtlas.Text.Position

/-!
# RakuAtlas.Symbol.Basic — declared symbols

A `Symbol` is one declaration of a name: what it is, where it stands, how far
its block goes and what scope is around it. Every table, index and query
deals in symbols.
-/

namespace RakuAtlas

/-- What a symbol is. -/
inductive SymbolKind where
  | package
  | classDecl
  | role
  | grammar
  | module
  | token
  | rule
  | field
  | sub
  | method
  | localVar
  | phaser
  | importing
deriving DecidableEq, Repr

namespace SymbolKind

/-- Packages, classes, roles, grammars and modules. -/
def isScope : SymbolKind → Bool
  | .package | .classDecl | .role | .grammar | .module => true
  | _ => false

/-- Subs and methods. -/
def isCallable : SymbolKind → Bool
  | .sub | .method => true
  | _ => false

/-- Tokens and rules. -/
def isProduction : SymbolKind → Bool
  | .token | .rule => true
  | _ => false

/-- Whether the symbol goes into the index of the workspace. Variables, fields,
phasers and imports concern their own document only. -/
def isIndexable (kind : SymbolKind) : Bool :=
  kind.isScope || kind.isCallable || kind.isProduction

/-- The word for the kind in an outline. -/
def label : SymbolKind → String
  | .package => "package"
  | .classDecl => "class"
  | .role => "role"
  | .grammar => "grammar"
  | .module => "module"
  | .token => "token"
  | .rule => "rule"
  | .field => "field"
  | .sub => "sub"
  | .method => "method"
  | .localVar => "variable"
  | .phaser => "phaser"
  | .importing => "import"

/-- The kind of a scope. -/
def ofScope : ScopeKind → SymbolKind
  | .package => .package
  | .classDecl => .classDecl
  | .role => .role
  | .grammar => .grammar
  | .module => .module

/-- The kind of a callable; a submethod is a method. -/
def ofCallable : CallableKind → SymbolKind
  | .sub => .sub
  | .method | .submethod => .method

/-- The kind of a production. -/
def ofProduction : ProductionKind → SymbolKind
  | .token => .token
  | .rule => .rule

end SymbolKind

/-- Where a symbol was learned of. -/
inductive Origin where
  | parsing
  | index
  | moduleDiscovery
deriving DecidableEq, Repr

/-- A declaration of a name. -/
structure Symbol where
  name : String
  kind : SymbolKind
  file : FileId
  line : Nat
  /-- The last line of its block, which is `line` if it has none. -/
  stop : Nat
  /-- The scope around it, empty at the top. -/
  scope : String
  params : List String
  /-- The type of a variable that holds a new object. -/
  typeName : Option String
  origin : Origin
deriving DecidableEq, Repr

namespace Symbol

/-- A symbol on one line, at the top of its file. -/
def onLine (name : String) (kind : SymbolKind) (file : FileId) (line : Nat) : Symbol :=
  ⟨name, kind, file, line, line, "", [], none, .parsing⟩

/-- The symbol with a block up to this line; a line before the symbol counts
as its own. -/
def withStop (s : Symbol) (stop : Nat) : Symbol := { s with stop := max stop s.line }

/-- The symbol inside a scope. -/
def inScope (s : Symbol) (scope : String) : Symbol := { s with scope := scope }

/-- The line of the declaration. -/
def location (s : Symbol) : Location := ⟨s.file, .wholeLine s.line⟩

/-- The lines of the declaration and its block. -/
def extent (s : Symbol) : Range := ⟨⟨s.line, 0⟩, ⟨s.stop + 1, 0⟩⟩

/-- Whether the block goes beyond the line of the declaration. -/
def isMultiline (s : Symbol) : Bool := s.line < s.stop

/-- The name with its scope in front, for a plain name inside a scope. -/
def qualifiedName? (s : Symbol) : Option String :=
  if s.scope.isEmpty || Text.occursIn "::".toList s.name.toList then none
  else some (s.scope ++ "::" ++ s.name)

end Symbol

end RakuAtlas
