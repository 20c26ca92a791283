import RakuAtlas.Text.Lines

/-!
# RakuAtlas.Text.Name — names made of joined parts

Names are parts of word characters joined by single hyphens and, if
qualified, by `::`. Which characters make a part differs from one use to the
next, so `joinedTail` takes the classes as arguments.
-/

namespace RakuAtlas.Text

open Unicode (isLetter isWord)

/-- Letters and underscores start a name. -/
def isNameStart (c : Char) : Bool := isLetter c || c == '_'

/-- Whether the first character is in the class. -/
def headIs (p : Char → Bool) (cs : Line) : Bool := cs.head?.any p

/-- How many characters go on with a name: characters of the class `part`, a
hyphen before one of the class `hyphenated`, and `::` before one of the class
`nested`. The latter two are subclasses of `part`. -/
def joinedTail (part hyphenated nested : Char → Bool) : Line → Nat
  | [] => 0
  | c :: cs =>
    if part c then 1 + joinedTail part hyphenated nested cs
    else if c = '-' && headIs hyphenated cs then 1 + joinedTail part hyphenated nested cs
    else match cs with
      | d :: rest =>
        if c = ':' && d = ':' && headIs nested rest then
          2 + joinedTail part hyphenated nested rest
        else 0
      | [] => 0

/-- Characters of a declared name: word characters and hyphens. -/
def isNamePart (c : Char) : Bool := isWord c || c == '-'

/-- How many characters go on with the name of a package: word characters,
hyphens and `::`, in any order. -/
def packageTail : Line → Nat
  | [] => 0
  | c :: cs =>
    if isNamePart c then 1 + packageTail cs
    else match cs with
      | d :: rest => if c = ':' && d = ':' then 2 + packageTail rest else 0
      | [] => 0

end RakuAtlas.Text
