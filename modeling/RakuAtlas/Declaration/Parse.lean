import RakuAtlas.Declaration.Variable
import RakuAtlas.Lexical.Skeleton

/-!
# RakuAtlas.Declaration.Parse — the declarations of a text

A text is read line by line. On each line the recognizers of the mode are
tried in a fixed order, and the first that applies wins. A recognizer may look
at the lines that follow, and it hands on a context: the scope that the next
line is in, and whether a list of variables goes on there.

Literals are blanked out first. If that cannot be done, for want of a
classifier or because it fails, the lines are read as they are.
-/

namespace RakuAtlas

open Text (Line trim)
open Lexical (Classifier)

namespace Declaration

/-! ## Context -/

/-- What a line needs to know about the lines before it. -/
structure Context where
  /-- The scope around the line, empty at the top. -/
  scope : String
  /-- The last line of that scope. -/
  scopeStop : Option Nat
  /-- Whether the line before left a list of variables or parameters open. -/
  goesOn : Bool
deriving DecidableEq, Repr

namespace Context

/-- The context of the first line. -/
def initial : Context := ⟨"", none, false⟩

/-- The context on a line: a scope that has ended is left, and what is around
it is the top. -/
def enter (ctx : Context) (line : Nat) : Context :=
  match ctx.scopeStop with
  | some stop => if stop < line then { ctx with scope := "", scopeStop := none } else ctx
  | none => ctx

end Context

/-! ## Recognizers -/

/-- A line in its surroundings. -/
structure Cursor where
  mode : ParseMode
  line : Nat
  code : Line
  following : List Line

namespace Cursor

/-- The last line of the block of a callable, a production or a phaser. -/
def blockStop (here : Cursor) : Nat :=
  if here.mode.measuresBlocks then here.line + Block.blockLength here.code here.following
  else here.line

end Cursor

/-- Says what a line declares, and in what context the next line is. -/
abbrev Recognizer := Cursor → Context → Option (Form × Context)

namespace Recognizer

/-- Recognizes scopes. -/
def scopes : Recognizer := fun here ctx => do
  let (kind, name) ← Header.scope? here.code
  let stop := here.line + Block.scopeLength here.code here.following
  return (.scope kind name stop, { ctx with scope := name, scopeStop := some stop })

/-- Recognizes callables. -/
def callables : Recognizer := fun here ctx => do
  let (kind, name, rest) ← Header.callable? here.code
  let params := Variable.params rest here.code here.following
  return (.callable kind name here.blockStop params,
    { ctx with goesOn := !Variable.endsSignature here.code })

/-- Recognizes productions. -/
def productions : Recognizer := fun here ctx => do
  let (kind, name) ← Header.production? here.code
  return (.production kind name here.blockStop, ctx)

/-- Recognizes fields. -/
def fields : Recognizer := fun here ctx => do
  let name ← Header.field? here.code
  return (.field name, ctx)

/-- Recognizes phasers. -/
def phasers : Recognizer := fun here ctx => do
  let name ← Header.phaser? here.code
  return (.phaser name here.blockStop, ctx)

/-- Recognizes variables that are set to a new object. -/
def objects : Recognizer := fun here ctx => do
  let (name, typeName) ← Header.object? here.code
  return (.varDecl [name] (some typeName), { ctx with goesOn := false })

/-- Recognizes other variables. A declaration, and the rest of one, take the
whole line even when they name nothing. -/
def varDecls : Recognizer := fun here ctx =>
  if ctx.goesOn || (Variable.afterDeclarator? here.code).isSome then
    some (.varDecl (Variable.declared here.code) none,
      { ctx with goesOn := Variable.goesOn here.code })
  else
    match Variable.introduced here.code with
    | [] => none
    | names => some (.varDecl names none, { ctx with goesOn := false })

/-- Recognizes imports. -/
def imports : Recognizer := fun here ctx => do
  let name ← Header.import? here.code
  return (.importing name, ctx)

end Recognizer

open Recognizer in
/-- The recognizers of a mode, in the order in which they are tried. -/
def recognizers : ParseMode → List Recognizer
  | .outline => [scopes, callables, productions, fields, phasers, imports]
  | .navigation => [scopes, callables, productions, fields, phasers, objects, varDecls, imports]
  | .refinement => [scopes, callables, productions, fields]
  | .workspaceIndex => [scopes, callables, productions, phasers, imports]

/-! ## Reading lines -/

/-- What a line declares; an empty line declares nothing. -/
def recognize (here : Cursor) (ctx : Context) : Option (Form × Context) :=
  if here.code.isEmpty then none
  else (recognizers here.mode).findSome? fun r => r here ctx

/-- The declarations on prepared lines, of which the first has number `line`. -/
def readFrom (mode : ParseMode) (line : Nat) (ctx : Context) : List Line → List Declaration
  | [] => []
  | code :: following =>
    let ctx := ctx.enter line
    match recognize ⟨mode, line, code, following⟩ ctx with
    | some (form, next) => ⟨line, ctx.scope, form⟩ :: readFrom mode (line + 1) next following
    | none => readFrom mode (line + 1) ctx following

/-- The lines as they are read: with literals blanked out where the mode asks
for it and a classifier can do it, and trimmed. -/
def prepare (mode : ParseMode) (classifier : Option Classifier) (lines : List Line) : List Line :=
  let raw := lines.map trim
  if mode.blanksLiterals then
    match classifier with
    | some c =>
      match c.skeleton lines with
      | .ok skeleton => skeleton
      | .error _ => raw
    | none => raw
  else raw

/-- The declarations on the lines of a text. -/
def parse (mode : ParseMode) (classifier : Option Classifier) (lines : List Line) :
    List Declaration :=
  readFrom mode 0 .initial (prepare mode classifier lines)

end Declaration

end RakuAtlas
