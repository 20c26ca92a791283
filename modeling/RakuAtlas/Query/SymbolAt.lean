import RakuAtlas.Symbol.Name
import RakuAtlas.Text.Name
import RakuAtlas.Text.Search

/-!
# RakuAtlas.Query.SymbolAt — the symbol under the cursor

A symbol is an optional sigil with an optional twigil, then parts joined by
hyphens or `::`. The cursor is on a symbol if it is inside it, and also if it
is right behind it and inside no other.
-/

namespace RakuAtlas.Query

open Unicode (isWord)
open Text
open RakuAtlas.Symbol (isSigil isTwigil)

/-- The rest after a sigil and a twigil, as far as they are there. -/
def afterSigil : Line → Line
  | c :: cs =>
    if isSigil c then
      match cs with
      | d :: rest => if isTwigil d then rest else cs
      | [] => []
    else c :: cs
  | [] => []

/-- How many characters the symbol that comes here takes up. -/
def symbolLen? (cs : Line) : Option Nat :=
  let name := afterSigil cs
  if headIs isNameStart name then
    some (cs.length - name.length + joinedTail isWord isNameStart isNameStart name)
  else none

/-- The symbols on a line, from left to right. -/
def symbolsOn (line : Line) : List (Hit Unit) := hits (fun cs => (symbolLen? cs).map (·, ())) line

/-- A symbol as written, and where. -/
structure SymbolAt where
  text : Line
  range : Range
deriving DecidableEq, Repr

/-- The symbol on a line that the position is on. -/
def symbolAt? (line : Line) (pos : Pos) : Option SymbolAt :=
  let found := symbolsOn line
  let around := found.find? fun h => h.start ≤ pos.col && pos.col < h.stop
  let before := found.find? fun h => h.stop == pos.col
  (around.or before).map fun h => ⟨h.text, .onLine pos.line h.start h.stop⟩

/-- The symbol in a text that the position is on. -/
def symbolIn? (text : String) (pos : Pos) : Option SymbolAt := do
  let line ← (lines text)[pos.line]?
  symbolAt? line pos

end RakuAtlas.Query
