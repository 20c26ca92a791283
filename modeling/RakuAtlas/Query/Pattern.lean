import RakuAtlas.Symbol.Name

/-!
# RakuAtlas.Query.Pattern — patterns that are searched for

A name is searched for by a pattern, and patterns are compiled by a library. That may refuse to
compile one that is too large for it, and then nothing is searched for. Which patterns it refuses is
left open (`PatternLibrary`); `PatternLibrary.standard` is how it does so by default.
-/

namespace RakuAtlas.Query

open Text (byteLen)
open RakuAtlas.Symbol (SymbolName)

/-- What compiles patterns. -/
class PatternLibrary where
  /-- Whether it compiles the pattern of a name. -/
  builds : SymbolName → Bool

namespace PatternLibrary

/-- How many bytes the pattern of a name spells out. A variable is spelled in three ways: in braces,
behind a twigil and by itself. An attribute is spelled in one. -/
def spelledBytes (name : SymbolName) : Nat :=
  if name.sigil.isSome && name.twigil.isNone then 3 * byteLen name.base else byteLen name.base

/-- How many bytes of memory each byte of a pattern takes when it is compiled. -/
def stateSize : Nat := 32

/-- How many bytes of memory a compiled pattern may take. -/
def sizeLimit : Nat := 10 * 1024 * 1024

/-- The library with its limit on the size of what it compiles. What a pattern has besides the names
in it is too little to count. -/
instance standard : PatternLibrary where
  builds name := stateSize * spelledBytes name ≤ sizeLimit

end PatternLibrary

end RakuAtlas.Query
