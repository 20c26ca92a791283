import RakuAtlas.Text.Chars

/-!
# RakuAtlas.Symbol.Name — symbols as written

A symbol is written with an optional sigil, then an optional twigil, then its
base: `$x`, `$.name`, `@items`, `foo`, `Foo::bar`. `SymbolName.parse` takes it
apart and `SymbolName.render` puts it together again.
-/

namespace RakuAtlas.Symbol

open Text

/-- The sigils of variables. -/
def isSigil (c : Char) : Bool := c == '$' || c == '@' || c == '%'

/-- The twigils of public and private attributes. -/
def isTwigil (c : Char) : Bool := c == '.' || c == '!'

/-- A symbol taken apart. -/
structure SymbolName where
  sigil : Option Char
  twigil : Option Char
  base : List Char
deriving DecidableEq, Repr

namespace SymbolName

/-- Take a symbol apart. A twigil needs a sigil before it and something after
it. -/
def parse (cs : List Char) : SymbolName :=
  match cs with
  | sigil :: rest =>
    if isSigil sigil then
      match rest with
      | twigil :: base =>
        if isTwigil twigil && !base.isEmpty then ⟨some sigil, some twigil, base⟩
        else ⟨some sigil, none, rest⟩
      | [] => ⟨some sigil, none, []⟩
    else ⟨none, none, cs⟩
  | [] => ⟨none, none, []⟩

/-- The symbol as written. -/
def render (name : SymbolName) : List Char :=
  name.sigil.toList ++ name.twigil.toList ++ name.base

/-- Taking a symbol apart loses nothing. -/
theorem render_parse (cs : List Char) : (parse cs).render = cs := by
  rw [parse.eq_def]
  split
  · split
    · split
      · split <;> simp [render]
      · simp [render]
    · simp [render]
  · simp [render]

/-- Whether the symbol is a variable. -/
def hasSigil (name : SymbolName) : Bool := name.sigil.isSome

/-- The qualifier and the last part of a qualified base, cut at its last `::`. -/
def splitQualified? (name : SymbolName) : Option (List Char × List Char) :=
  splitLast? name.base
where
  /-- Cut at the last `::`. -/
  splitLast? : List Char → Option (List Char × List Char)
    | [] => none
    | c :: cs =>
      match splitLast? cs with
      | some (front, back) => some (c :: front, back)
      | none => (":".toList.isPrefixOf? cs).bind fun back =>
          if c = ':' then some ([], back) else none

end SymbolName

end RakuAtlas.Symbol
