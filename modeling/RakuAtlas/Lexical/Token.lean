import RakuAtlas.Lexical.Quote
import RakuAtlas.Text.Name

/-!
# RakuAtlas.Lexical.Token — the tokens of code

Within code only a few things matter: what opens a quoted construct, and what
stands before a slash, because that decides whether the slash divides or
opens a pattern. A `Token` says no more than that.

`Token.read c cs` reads the token that starts with `c`: the longest one, with
the number of characters of `cs` that belong to it.

Quote and pattern operators are words such as `q`, `qq` or `s`, then adverbs
such as `:i` or `:to`, then the opening delimiter. An operator word with
adverbs but without a delimiter is read as one token that means nothing.
-/

namespace RakuAtlas.Lexical

open Unicode (isLetter isNumber)
open Text (Line headIs isNameStart joinedTail)

/-- What one token of code means. -/
inductive Token where
  /-- Space, tab, carriage return or form feed. -/
  | blank
  /-- `#`, which starts a comment. -/
  | hash
  /-- The opening of a quoted construct. -/
  | opening (quote : Quote)
  /-- A quote operator that announces a heredoc, with its opening delimiter. -/
  | heredoc (delimiter : Char)
  /-- A single `/`. -/
  | slash
  /-- `//`, and every character that is nothing else. -/
  | operator
  /-- A variable, a number or a closing bracket. -/
  | term
  | dot
  /-- A word; keywords are those after which a term is expected. -/
  | word (keyword : Bool)
deriving DecidableEq, Repr

/-! ## Names -/

/-- Letters, numbers and underscores make the parts of a name in code. -/
def inName (c : Char) : Bool := isLetter c || isNumber c || c == '_'

/-- Whether a name starts here. -/
def startsName (cs : Line) : Bool := headIs isNameStart cs

/-- How many characters go on with a simple name: hyphens join its parts. -/
def nameTail (cs : Line) : Nat := joinedTail inName isNameStart (fun _ => false) cs

/-- How many characters go on with a qualified name: hyphens and `::` join its
parts. -/
def qualifiedTail (cs : Line) : Nat := joinedTail inName isNameStart isNameStart cs

/-- Words after which a term, and so a pattern, is expected. -/
def termKeywords : List String :=
  ["and", "elsif", "first", "given", "grep", "if", "not", "or", "return", "unless", "until",
    "when", "where", "while", "with", "without", "xor"]

/-! ## Variables and numbers -/

/-- The sigils of variables in code. -/
def isCodeSigil (c : Char) : Bool := "$@%&".toList.contains c

/-- What may stand between the sigil and the name of a variable in code. -/
def isCodeTwigil (c : Char) : Bool := ".!*^?:=~".toList.contains c

/-- How many characters after the sigil belong to the variable, if there is
one. -/
def variableTail? (sigil : Char) (cs : Line) : Option Nat :=
  if startsName cs then some (nameTail cs)
  else match cs with
    | c :: rest =>
      if isCodeTwigil c && startsName rest then some (1 + nameTail rest)
      else if sigil = '$' && "/!¢".toList.contains c then some 1
      else none
    | [] => none

/-- How many digits and underscores come next. -/
def digitsTail (cs : Line) : Nat := (cs.takeWhile fun c => c.isDigit || c == '_').length

/-- How many characters go on with a number after its first digit. -/
def numberTail (cs : Line) : Nat :=
  let whole := digitsTail cs
  match cs.drop whole with
  | '.' :: d :: rest => if d.isDigit then whole + 2 + digitsTail rest else whole
  | _ => whole

/-! ## Operators -/

/-- The words that open strings and patterns. -/
inductive QuoteWord where
  /-- A string; raw strings have no escapes. -/
  | string (raw : Bool)
  /-- A pattern with this many parts. -/
  | pattern (parts : Nat)
deriving DecidableEq, Repr

namespace QuoteWord

/-- The operator that a word stands for. -/
def ofWord? (word : String) : Option QuoteWord :=
  if word = "Q" then some (.string true)
  else if ["q", "qq", "qw", "qqw", "qx", "qqx"].contains word then some (.string false)
  else if ["rx", "m", "ms"].contains word then some (.pattern 1)
  else if ["s", "ss", "tr", "S", "TR"].contains word then some (.pattern 2)
  else none

/-- The delimiters that may follow the operator. -/
def takes (op : QuoteWord) (delimiter : Char) : Bool :=
  match op with
  | .string _ => ['/', '|', '!', '{', '[', '<', '«', '\'', '"'].contains delimiter
  | .pattern _ => ['/', '|', '!', '{', '[', '<', '«'].contains delimiter

/-- The token of the operator with its adverbs and opening delimiter. -/
def token (op : QuoteWord) (adverbs : List Line) (delimiter : Char) : Token :=
  match op with
  | .pattern parts => .opening ((Quote.opened .pattern delimiter).withParts parts)
  | .string raw =>
    if adverbs.any fun a => "to".toList.isPrefixOf a || "heredoc".toList.isPrefixOf a then
      .heredoc delimiter
    else if raw then .opening (Quote.opened .string delimiter).verbatim
    else .opening (Quote.opened .string delimiter)

end QuoteWord

/-- The adverbs that come next: each a colon and lower-case letters. -/
def adverbs : Line → List Line
  | ':' :: cs =>
    if cs.takeWhile Char.isLower = [] then []
    else cs.takeWhile Char.isLower :: adverbs (cs.dropWhile Char.isLower)
  | _ => []
termination_by cs => cs.length
decreasing_by
  have := (List.dropWhile_sublist (l := cs) Char.isLower).length_le
  simp only [List.length_cons]
  omega

/-- The characters that the adverbs take up, colons included. -/
def adverbsLen (names : List Line) : Nat := total (fun name => name.length + 1) names

/-- The quote or pattern operator at the front, with its length in
characters. -/
def operator? (cs : Line) : Option (Token × Nat) := do
  let word := cs.takeWhile Char.isAlpha
  let op ← QuoteWord.ofWord? (String.ofList word)
  let names := adverbs (cs.drop word.length)
  let len := word.length + adverbsLen names
  match cs.drop len with
  | delimiter :: _ =>
    if op.takes delimiter then some (op.token names delimiter, len + 1)
    else if names = [] then none
    else some (.operator, len)
  | [] => if names = [] then none else some (.operator, len)

/-! ## Reading a token -/

namespace Token

/-- The token that starts with a letter or an underscore. -/
def readWord (c : Char) (cs : Line) : Token × Nat :=
  match operator? (c :: cs) with
  | some (token, len) => (token, len - 1)
  | none =>
    let len := qualifiedTail cs
    (.word (termKeywords.contains (String.ofList (c :: cs.take len))), len)

/-- The token that starts with `c`, and how many of the characters after it
belong to it. -/
def read (c : Char) (cs : Line) : Token × Nat :=
  if c = ' ' || c = '\t' || c = '\r' || c = '\x0c' then (.blank, 0)
  else if c = '#' then (.hash, 0)
  else if c = '"' || c = '\'' then (.opening (Quote.opened .string c), 0)
  else if c = '｢' then (.opening (Quote.opened .string c).verbatim, 0)
  else if c = '/' then (if cs.head? = some '/' then (.operator, 1) else (.slash, 0))
  else if c = ')' || c = ']' || c = '}' then (.term, 0)
  else if c = '.' then (.dot, 0)
  else if c.isDigit then (.term, numberTail cs)
  else if isCodeSigil c then
    match variableTail? c cs with
    | some len => (.term, len)
    | none => (.operator, 0)
  else if startsName [c] then readWord c cs
  else (.operator, 0)

end Token

end RakuAtlas.Lexical
