import RakuAtlas.Declaration.Basic
import RakuAtlas.Text.Name
import RakuAtlas.Text.Search

/-!
# RakuAtlas.Declaration.Header — reading the line that declares

Each function here looks at one trimmed line and says whether it is the header
of a declaration of one form, and with what name. What follows the line does
not matter.
-/

namespace RakuAtlas.Header

open Unicode (isWord isDecimal)
open Text

/-! ## Names -/

/-- A name of word characters and hyphens that starts with a letter or an
underscore, and the rest. -/
def name? (cs : Line) : Option (Line × Line) :=
  if headIs isNameStart cs then some (cs.takeWhile isNamePart, cs.dropWhile isNamePart) else none

/-- The name of a package, and the rest. -/
def packageName? : Line → Option (Line × Line)
  | c :: cs =>
    if isWord c then some (c :: cs.take (packageTail cs), cs.drop (packageTail cs)) else none
  | [] => none

/-- A name without the hyphens at its end. -/
def tidy (name : Line) : String := String.ofList (dropEndWhile (· == '-') name)

/-! ## Scopes -/

/-- The keywords of scopes. -/
def scopeKeywords : List String := ["package", "class", "role", "grammar", "module"]

/-- The kind of scope that a keyword declares. -/
def scopeKind : String → ScopeKind
  | "package" => .package
  | "class" => .classDecl
  | "role" => .role
  | "grammar" => .grammar
  | _ => .module

/-- The keyword that declares a scope, and the rest after it. -/
def scopeKeyword? (cs : Line) : Option (String × Line) :=
  afterOneOf? scopeKeywords (skipOneOf ["proto"] (skipOneOf ["my", "our", "unit"] cs))

/-- The kind and the name of the scope that the line declares. -/
def scope? (cs : Line) : Option (ScopeKind × String) := do
  let (keyword, rest) ← scopeKeyword? cs
  let (name, _) ← packageName? rest
  return (scopeKind keyword, tidy name)

/-- Whether the line declares a `unit`, which has no block. -/
def isUnit (cs : Line) : Bool := (afterOneOf? ["unit"] cs).isSome

/-! ## Callables and productions -/

/-- The kind of callable that a keyword declares. -/
def callableKind : String → CallableKind
  | "sub" => .sub
  | "method" => .method
  | _ => .submethod

/-- The name of a callable, which may be marked as private, and what follows it
on the line. -/
def callableName? (cs : Line) : Option (Line × Line) := do
  let (name, rest) ← name? ((afterChar? '!' cs).getD cs)
  if isOneLine rest then some (name, rest) else none

/-- A callable with its keyword. -/
def routine? (cs : Line) : Option (CallableKind × Line × Line) := do
  let (keyword, rest) ← afterOneOf? ["sub", "method", "submethod"]
    (skipOneOf ["multi", "proto", "only"] (skipOneOf ["my", "our"] cs))
  let (name, rest) ← callableName? rest
  return (callableKind keyword, name, rest)

/-- A candidate of a callable without its keyword: `multi area($r) ...`. -/
def candidate? (cs : Line) : Option (Line × Line) := do
  let (_, rest) ← afterOneOf? ["multi", "proto", "only"] (skipOneOf ["my", "our"] cs)
  let (name, rest) ← callableName? rest
  if ["token", "rule", "regex"].contains (String.ofList name) then none else some (name, rest)

/-- The kind and the name of the callable that the line declares, and what
follows the name. -/
def callable? (cs : Line) : Option (CallableKind × String × Line) :=
  match routine? cs with
  | some (kind, name, rest) => some (kind, tidy name, rest)
  | none => (candidate? cs).map fun (name, rest) => (.sub, tidy name, rest)

/-- The kind and the name of the production that the line declares. -/
def production? (cs : Line) : Option (ProductionKind × String) := do
  let (keyword, rest) ← afterOneOf? ["token", "rule", "regex"]
    (skipOneOf ["proto", "multi"] (skipOneOf ["my", "our"] cs))
  let (name, _) ← name? rest
  return (if keyword = "rule" then .rule else .token, tidy name)

/-! ## Fields, phasers and imports -/

/-- Characters of the type of a field. -/
def isTypePart (c : Char) : Bool := isWord c || c == ':' || c == '[' || c == ']'

/-- The rest after a type and white space, if they are there. -/
def skipType (cs : Line) : Line :=
  if headIs isTypePart cs then (afterBlanks? (cs.dropWhile isTypePart)).getD cs else cs

/-- The name of the field that the line declares, with sigil and twigil. -/
def field? (cs : Line) : Option String := do
  let (_, rest) ← afterOneOf? ["has", "HAS"] cs
  match skipType rest with
  | sigil :: twigil :: more =>
    let name := more.takeWhile isNamePart
    if ['$', '@', '%', '&'].contains sigil && ['.', '!'].contains twigil && name ≠ [] then
      some (String.ofList (sigil :: twigil :: name))
    else none
  | _ => none

/-- The names of the phasers. -/
def phasers : List String :=
  ["BEGIN", "CHECK", "INIT", "END", "ENTER", "LEAVE", "KEEP", "UNDO", "FIRST", "NEXT", "LAST",
    "PRE", "POST", "CATCH", "CONTROL", "QUIT", "CLOSE"]

/-- The phaser whose block the line opens. -/
def phaser? (cs : Line) : Option String :=
  phasers.find? fun name =>
    match afterWord? name cs with
    | some rest => headIs (· == '{') (trimStart rest)
    | none => false

/-- The module that the line imports. A version of the language is no module. -/
def import? (cs : Line) : Option String := do
  let (_, rest) ← afterOneOf? ["use", "need", "require"] cs
  let (name, _) ← packageName? rest
  match name with
  | 'v' :: more => if headIs isDecimal more then none else some (String.ofList name)
  | _ => some (String.ofList name)

/-! ## Objects -/

/-- What declares a variable. -/
def declarators : List String := ["my", "our", "state", "let"]

/-- A scalar variable, and the rest. -/
def scalar? (cs : Line) : Option (Line × Line) := do
  let rest ← afterChar? '$' cs
  if headIs isNamePart rest then
    some ('$' :: rest.takeWhile isNamePart, rest.dropWhile isNamePart)
  else none

/-- Whether the word `new` comes here. -/
def isNew (cs : Line) : Bool := (afterWord? "new" cs).any atWordEnd

/-- The variable and the type in `my $x = Type.new`. -/
def constructed? (cs : Line) : Option (String × String) := do
  let (_, rest) ← afterOneOf? declarators cs
  let (target, rest) ← scalar? rest
  let rest ← afterChar? '=' (trimStart rest)
  let (typeName, rest) ← packageName? (trimStart rest)
  let rest ← afterChar? '.' rest
  if isNew rest then some (String.ofList target, String.ofList typeName) else none

/-- The variable and the type in `my Type $x .= new`. -/
def typed? (cs : Line) : Option (String × String) := do
  let (_, rest) ← afterOneOf? declarators cs
  let (typeName, rest) ← packageName? rest
  let (target, rest) ← scalar? (← afterBlanks? rest)
  let rest ← afterWord? ".=" (trimStart rest)
  if isNew (trimStart rest) then some (String.ofList target, String.ofList typeName) else none

/-- The variable that the line sets to a new object, and its type. -/
def object? (cs : Line) : Option (String × String) := (constructed? cs).or (typed? cs)

end RakuAtlas.Header
