/-!
# RakuAtlas.Symbol.Reserved — words that are never renamed

Keywords of the language, names of phasers and names of built-in types.
-/

namespace RakuAtlas.Symbol

/-- The reserved words. -/
def reservedWords : List String := [
  "Any", "Array", "Associative", "BEGIN", "Bag", "Block", "Bool", "CATCH", "CHECK", "CLOSE",
  "CONTROL", "Callable", "Capture", "Channel", "Code", "Complex", "DateTime", "Duration", "END",
  "ENTER", "Exception", "FIRST", "Failure", "Grammar", "Hash", "INIT", "IO", "Instant", "Int",
  "Junction", "KEEP", "LAST", "LEAVE", "List", "Map", "Match", "Method", "Mix", "Mu", "NEXT",
  "Nil", "Num", "POST", "PRE", "Pair", "Positional", "Promise", "QUIT", "Range", "Rat", "Regex",
  "Routine", "START", "Scalar", "Seq", "Set", "Slip", "Str", "Sub", "Supply", "UNDO", "Whatever",
  "but", "class", "constant", "default", "die", "does", "else", "elsif", "enum", "fail", "for",
  "given", "grammar", "has", "if", "import", "is", "last", "let", "loop", "method", "module",
  "multi", "my", "need", "next", "only", "our", "package", "proceed", "proto", "redo", "repeat",
  "require", "return", "role", "state", "sub", "succeed", "temp", "trusts", "try", "unless",
  "until", "use", "warn", "when", "while"]

/-- Whether a word, without sigil and twigil, is reserved. -/
def isReserved (word : List Char) : Bool := reservedWords.contains (String.ofList word)

end RakuAtlas.Symbol
