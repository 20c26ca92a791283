import RakuAtlas.Declaration.Header

/-!
# RakuAtlas.Declaration.Block — where blocks end

Blocks are found by counting braces over lines whose literals are blanked out.
The empty hash of a default value, `= {}`, opens no block.

All results are counted from the header line: a block that ends on the header
line has length 0.
-/

namespace RakuAtlas.Block

open Text

/-! ## Braces -/

/-- How many characters `= {}` takes up, if it comes here. -/
def emptyHashLen? (cs : Line) : Option Nat := do
  let inner ← afterChar? '{' (trimStart (← afterChar? '=' cs))
  let rest ← afterChar? '}' (trimStart inner)
  return cs.length - rest.length

/-- The line without the empty hashes of default values. -/
def dropEmptyHashes (cs : Line) : Line := eraseHits emptyHashLen? cs

/-- The braces seen so far: how many are open, and whether there was one. -/
structure Braces where
  depth : Int
  opened : Bool
deriving DecidableEq, Repr

namespace Braces

/-- No brace seen. -/
def none : Braces := ⟨0, false⟩

/-- Count one character. -/
def step (b : Braces) (c : Char) : Braces :=
  if c = '{' then ⟨b.depth + 1, true⟩
  else if c = '}' then { b with depth := b.depth - 1 }
  else b

/-- Count the characters of a line. -/
def count (b : Braces) (cs : Line) : Braces := cs.foldl step b

/-- Whether a block was opened and is closed again. -/
def isClosed (b : Braces) : Bool := b.opened && b.depth ≤ 0

end Braces

/-- The line on which the block that opens on these lines closes, where `line`
counts the lines and `braces` those before. As long as no brace was seen,
`givesUp` may end the search. -/
def closingFrom? (givesUp : Nat → Line → Bool) (line : Nat) (braces : Braces) :
    List Line → Option Nat
  | [] => none
  | cs :: more =>
    let code := dropEmptyHashes cs
    let after := braces.count code
    if after.isClosed then some line
    else if !after.opened && givesUp line code then none
    else closingFrom? givesUp (line + 1) after more

/-- The line on which the block that opens on these lines closes. -/
def closing? (givesUp : Nat → Line → Bool) (lines : List Line) : Option Nat :=
  closingFrom? givesUp 0 .none lines

/-! ## Lengths -/

/-- Whether the line ends its statement. -/
def endsStatement (cs : Line) : Bool := cs.getLast? == some ';'

/-- Whether the line begins the declaration of a scope. -/
def declaresScope (cs : Line) : Bool := (Header.scopeKeyword? cs).isSome

/-- How many lines after its header a scope goes on. A header that ends its
statement declares the scope without a block, unless it is a unit. A scope for
which no block opens goes on to the next scope, or to the end. -/
def scopeLength (header : Line) (following : List Line) : Nat :=
  let unit := Header.isUnit header
  if !unit && endsStatement header && !header.contains '{' then 0
  else
    let block := if unit then none
      else closing? (fun line code => code.contains ';' || 1 < line) (header :: following)
    match block with
    | some length => length
    | none => (following.takeWhile fun cs => !declaresScope cs).length

/-- How many lines after its header the block of a callable, a production or a
phaser goes on. A block that is never closed counts as ending at once. -/
def blockLength (header : Line) (following : List Line) : Nat :=
  if endsStatement header then 0
  else (closing? (fun _ _ => false) (header :: following)).getD 0

end RakuAtlas.Block
