/-!
# RakuAtlas.Declaration.Basic — what a line can declare

One line declares at most one thing: a scope, a callable, a production of a
grammar, a field, a phaser, variables, or the import of a module.
-/

namespace RakuAtlas

/-- The kinds of scopes. -/
inductive ScopeKind where
  | package
  | classDecl
  | role
  | grammar
  | module
deriving DecidableEq, Repr

/-- The kinds of callables. -/
inductive CallableKind where
  | sub
  | method
  | submethod
deriving DecidableEq, Repr

/-- The kinds of grammar productions. -/
inductive ProductionKind where
  /-- `token` and `regex`. -/
  | token
  | rule
deriving DecidableEq, Repr

/-- What a line declares. Names are as written; `stop` is the last line of the
declaration's block. -/
inductive Form where
  | scope (kind : ScopeKind) (name : String) (stop : Nat)
  | callable (kind : CallableKind) (name : String) (stop : Nat) (params : List String)
  | production (kind : ProductionKind) (name : String) (stop : Nat)
  | field (name : String)
  | phaser (name : String) (stop : Nat)
  /-- Variables; those that hold a new object have a type name. -/
  | varDecl (names : List String) (typeName : Option String)
  | importing (moduleName : String)
deriving DecidableEq, Repr

/-- A form with the line it is on and the name of the scope around it, which
is empty at the top. -/
structure Declaration where
  line : Nat
  scope : String
  form : Form
deriving DecidableEq, Repr

/-- What is looked for in a text, and how thoroughly. -/
inductive ParseMode where
  /-- Declarations with the last lines of their blocks. -/
  | outline
  /-- Declarations and local variables. -/
  | navigation
  /-- Declarations only, and literals are not blanked out. -/
  | refinement
  /-- Declarations with the last lines of their blocks, but no fields. -/
  | workspaceIndex
deriving DecidableEq, Repr

namespace ParseMode

/-- Whether strings, patterns and comments are blanked out first. -/
def blanksLiterals (mode : ParseMode) : Bool := mode != .refinement

/-- Whether the blocks of callables, productions and phasers are measured. The
blocks of scopes always are, since they decide what is inside. -/
def measuresBlocks : ParseMode → Bool
  | .outline | .workspaceIndex => true
  | .navigation | .refinement => false

end ParseMode

end RakuAtlas
