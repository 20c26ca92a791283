import RakuAtlas.Declaration.Block
import RakuAtlas.Symbol.Name

/-!
# RakuAtlas.Declaration.Variable — variables and parameters

Which variables a piece of text names (`variablesIn`), which parameters a
signature has (`signatureParams`), which more show up on the lines after a
header (`laterParams`), and which variables a statement declares
(`declared`, `loopVariables?`, `pointyVariables?`, `caughtVariable?`).
-/

namespace RakuAtlas.Variable

open Unicode (isBlank isWord)
open Text
open RakuAtlas.Symbol (isSigil isTwigil)

/-! ## Variables in a text -/

/-- How many characters the variable that comes here takes up. -/
def variableLen? : Line → Option Nat
  | sigil :: cs =>
    if isSigil sigil then
      let name := match cs with
        | twigil :: rest => if isTwigil twigil then rest else cs
        | [] => cs
      if headIs isWord name then
        some (1 + (cs.length - name.length) + joinedTail isWord isNameStart isWord name)
      else none
    else none
  | [] => none

/-- The variables that a text names, in order. -/
def variablesIn (cs : Line) : List String := (hitTexts variableLen? cs).map String.ofList

/-! ## Signatures -/

/-- How many characters the default value that comes here takes up: everything
up to a comma or a closing parenthesis. -/
def defaultLen? : Line → Option Nat
  | '=' :: cs => some (1 + (cs.takeWhile fun c => c ≠ ',' && c ≠ ')').length)
  | _ => none

/-- The parameters in the text of a signature; default values name none. -/
def signatureParams (cs : Line) : List String :=
  variablesIn (eraseHits defaultLen? (Block.dropEmptyHashes cs))

/-- Whether a body opens or a parameter list closes here, on the last line of
the text. -/
def startsBody : Line → Bool
  | '{' :: c :: cs => c ≠ '}' && isOneLine cs
  | ')' :: cs => isOneLine cs
  | _ => false

/-- The text before a body or the end of a parameter list. -/
def beforeBody (cs : Line) : Line := cutBefore startsBody cs

/-- Whether the line ends the statement or the parameter list that it is in. -/
def endsSignature (cs : Line) : Bool :=
  Block.endsStatement cs || cs.any fun c => c = ')' || c = '}' || c = '{'

/-- What `my (...) = @_` takes from the arguments, if it comes here. -/
def argumentList? (cs : Line) : Option (List String) := do
  let rest ← afterChar? '(' (trimStart (← afterWord? "my" cs))
  let inner := rest.takeWhile (· ≠ ')')
  let rest ← afterChar? ')' (rest.dropWhile (· ≠ ')'))
  let rest ← afterChar? '=' (trimStart rest)
  let _ ← afterWord? "@_" (trimStart rest)
  return variablesIn inner

/-- What `my $x = shift` takes from the arguments, if it comes here. -/
def shifted? (cs : Line) : Option (List String) := do
  let rest := trimStart (← afterWord? "my" cs)
  let (target, rest) ← Header.scalar? (trimStart ((afterChar? '(' rest).getD rest))
  let rest := trimStart rest
  let rest ← afterChar? '=' (trimStart ((afterChar? ')' rest).getD rest))
  let rest ← afterWord? "shift" (trimStart rest)
  if atWordEnd rest then some [String.ofList target] else none

/-- The parameters that a line of a body takes from the arguments. -/
def takenParams (cs : Line) : List String :=
  ((firstAt? argumentList? cs).or (firstAt? shifted? cs)).getD []

/-- Whether a closing brace comes that does not follow an opening one at once. -/
def closesBlock (before : Option Char) : Line → Bool
  | [] => false
  | c :: cs => (c = '}' && before ≠ some '{') || closesBlock (some c) cs

/-- How many lines after the header of a callable are searched for more
parameters. -/
def lookahead : Nat := 4

/-- The parameters on these lines; `inSignature` says that the signature is
still open, `isHeader` that the first line is the header itself. -/
def paramsOver (isHeader inSignature : Bool) : List Line → List String
  | [] => []
  | cs :: more =>
    let listed := if inSignature && !isHeader then signatureParams (beforeBody cs) else []
    let later := if closesBlock none cs then []
      else paramsOver false (inSignature && !endsSignature cs) more
    listed ++ takenParams cs ++ later

/-- The parameters that show up after the header: those of a signature that
goes on, and those that the body takes from the arguments. -/
def laterParams (header : Line) (following : List Line) : List String :=
  paramsOver true true (header :: following.take lookahead)

/-- The parameters of a callable, given what follows its name on the header
line. -/
def params (afterName header : Line) (following : List Line) : List String :=
  let signature := signatureParams (afterName.takeWhile (· ≠ '{'))
  (laterParams header following).foldl
    (fun found param => if found.contains param then found else found ++ [param]) signature

/-! ## Statements -/

/-- The rest after a declarator and white space. -/
def afterDeclarator? (cs : Line) : Option Line := do
  let rest ← ["my", "our", "let", "state"].findSome? fun word => do
    let rest ← afterWord? word cs
    if atWordEnd rest then some rest else none
  return trimStart rest

/-- Whether a value is assigned here, on the last line of the text. -/
def startsAssignment : Line → Bool
  | '=' :: cs => isOneLine cs
  | _ => false

/-- The text before an assignment. -/
def beforeAssignment (cs : Line) : Line := cutBefore startsAssignment cs

/-- The variables that a statement declares, from its declarator on. -/
def declared (cs : Line) : List String :=
  variablesIn (beforeBody (beforeAssignment ((afterDeclarator? cs).getD cs)))

/-- Whether the variables of a declaration may go on on the next line. -/
def goesOn (cs : Line) : Bool :=
  !cs.any fun c => c = ')' || c = '=' || c = '}' || c = '{' || c = ';'

/-- The rest after the keyword of a loop or condition, if there is one. -/
def skipLoopKeyword (cs : Line) : Line :=
  let otherwise := do
    afterWord? "elsif" (trimStart (← afterChar? '}' cs))
  let keyword := ["if", "unless", "while", "until", "for", "with"].findSome?
    fun word => afterWord? word cs
  (otherwise.or keyword).getD cs

/-- The variables declared at the front of a parenthesis: `if (my $x = ...`. -/
def loopVariables? (cs : Line) : Option (List String) := do
  let rest ← afterChar? '(' (trimStart (skipLoopKeyword cs))
  let rest ← afterWord? "my" (trimStart rest)
  if atWordEnd rest then
    some (variablesIn (beforeAssignment (rest.takeWhile (· ≠ ')'))))
  else none

/-- How many characters of a list of parameters come here: variables with an
optional comma after each. -/
def parameterListLen : Line → Nat
  | [] => 0
  | sigil :: cs =>
    let name := (cs.takeWhile isNamePart).length
    if isSigil sigil && 0 < name then
      let rest := trimStart (cs.drop name)
      let rest := trimStart ((afterChar? ',' rest).getD rest)
      let len := cs.length - rest.length
      1 + len + parameterListLen (cs.drop len)
    else 0
termination_by cs => cs.length
decreasing_by
  simp only [List.length_cons, List.length_drop]
  omega

/-- The variables of a pointy block: `-> $x, $y`. The arrow must not follow a
hyphen. -/
def pointyVariables? (before : Option Char) : Line → Option (List String)
  | [] => none
  | c :: cs =>
    let here := do
      let rest ← afterWord? "->" (c :: cs)
      let list := trimStart rest
      let len := parameterListLen list
      if before ≠ some '-' && 0 < len then some (variablesIn (list.take len)) else none
    here.or (pointyVariables? (some c) cs)

/-- The variable that a `catch` clause binds, on a line of its own. -/
def caughtVariable? (cs : Line) : Option (List String) := do
  let rest := trimStart ((afterChar? '}' cs).getD cs)
  let rest ← afterChar? '(' (trimStart (← afterWord? "catch" rest))
  let rest ← afterChar? '$' (trimStart rest)
  let name := rest.takeWhile isWord
  let rest ← afterChar? ')' (trimStart (rest.dropWhile isWord))
  let rest := trimStart rest
  if name ≠ [] && ((afterChar? '{' rest).getD rest).isEmpty then
    some [String.ofList ('$' :: name)]
  else none

/-- The variables that a statement without a declarator introduces: those of
the first of these forms that it has. -/
def introduced (cs : Line) : List String :=
  match loopVariables? cs with
  | some names => names
  | none =>
    match pointyVariables? none cs with
    | some names => names
    | none => (caughtVariable? cs).getD []

end RakuAtlas.Variable
