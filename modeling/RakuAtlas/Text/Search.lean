import RakuAtlas.Text.Lines

/-!
# RakuAtlas.Text.Search — finding and cutting out

A search is given by a function that looks at the rest of a line and says how
many characters match at its front. Matches are taken from the left and do
not overlap: after a match the search goes on behind it.

* `hits` lists the matches with what surrounds them;
* `eraseHits` cuts them all out;
* `firstAt?` stops at the first;
* `cutBefore` cuts off the rest of the line, white space before it included.
-/

namespace RakuAtlas.Text

/-- A match within a line. -/
structure Hit (α : Type) where
  /-- The characters before the match, the nearest first. -/
  before : Line
  text : Line
  /-- The characters after the match. -/
  after : Line
  /-- What the search says about the match. -/
  info : α

namespace Hit

variable {α : Type}

/-- The byte offset at which the match starts. -/
def start (h : Hit α) : Nat := byteLen h.before

/-- The byte offset at which the match stops. -/
def stop (h : Hit α) : Nat := h.start + byteLen h.text

end Hit

variable {α : Type}

/-- The matches in a line, where `skip` characters are still to be passed over
and `before` came before. -/
def hitsFrom (find : Line → Option (Nat × α)) (skip : Nat) (before : Line) : Line → List (Hit α)
  | [] => []
  | c :: cs =>
    match skip with
    | k + 1 => hitsFrom find k (c :: before) cs
    | 0 =>
      match find (c :: cs) with
      | some (len, info) =>
        ⟨before, (c :: cs).take len, (c :: cs).drop len, info⟩ ::
          hitsFrom find (len - 1) (c :: before) cs
      | none => hitsFrom find 0 (c :: before) cs

/-- What surrounds a match and the match itself make up the line. -/
theorem line_of_mem_hitsFrom {find : Line → Option (Nat × α)} {h : Hit α} {line before : Line}
    {skip : Nat} (hmem : h ∈ hitsFrom find skip before line) :
    h.before.reverse ++ h.text ++ h.after = before.reverse ++ line := by
  induction line generalizing skip before with
  | nil => simp [hitsFrom] at hmem
  | cons c cs ih =>
    rw [hitsFrom.eq_def] at hmem
    split at hmem
    · simp at hmem
    · next c' cs' heq =>
      obtain ⟨rfl, rfl⟩ := List.cons.inj heq
      split at hmem
      · simpa using ih hmem
      · split at hmem
        · -- the match starts here, or it is a later one
          rcases List.mem_cons.1 hmem with rfl | hlater
          · simp [List.append_assoc]
          · simpa using ih hlater
        · simpa using ih hmem

/-- The matches in a line, from the left and not overlapping. -/
def hits (find : Line → Option (Nat × α)) (line : Line) : List (Hit α) := hitsFrom find 0 [] line

/-- The texts of the matches in a line. -/
def hitTexts (len? : Line → Option Nat) (line : Line) : List Line :=
  (hits (fun cs => (len? cs).map (·, ())) line).map Hit.text

/-- The line without its matches, where `skip` characters are still to be
dropped. -/
def eraseHitsFrom (len? : Line → Option Nat) (skip : Nat) : Line → Line
  | [] => []
  | c :: cs =>
    match skip with
    | k + 1 => eraseHitsFrom len? k cs
    | 0 =>
      match len? (c :: cs) with
      | some len => eraseHitsFrom len? (len - 1) cs
      | none => c :: eraseHitsFrom len? 0 cs

/-- The line without its matches. -/
def eraseHits (len? : Line → Option Nat) (line : Line) : Line := eraseHitsFrom len? 0 line

/-- The first answer that `find` gives on the line or a later rest of it. -/
def firstAt? (find : Line → Option α) : Line → Option α
  | [] => find []
  | c :: cs => (find (c :: cs)).or (firstAt? find cs)

/-- The line up to the first place where `stops` holds of the rest, without the
white space before that place. -/
def cutBefore (stops : Line → Bool) : Line → Line
  | [] => []
  | c :: cs => if stops (trimStart (c :: cs)) then [] else c :: cutBefore stops cs

/-- Whether the rest of the text has no newline. -/
def isOneLine (cs : Line) : Bool := !cs.contains '\n'

/-- The rest after the word, if the line starts with it. -/
def afterWord? (word : String) (cs : Line) : Option Line := word.toList.isPrefixOf? cs

/-- The rest after the character, if the line starts with it. -/
def afterChar? (c : Char) : Line → Option Line
  | d :: cs => if c = d then some cs else none
  | [] => none

/-- The rest after white space, of which there must be some. -/
def afterBlanks? (cs : Line) : Option Line :=
  if cs.head?.any Unicode.isBlank then some (trimStart cs) else none

/-- The first of the words that the line starts with and white space follows,
and the rest after that white space. -/
def afterOneOf? (words : List String) (cs : Line) : Option (String × Line) :=
  words.findSome? fun word => do
    let rest ← afterWord? word cs
    let rest ← afterBlanks? rest
    return (word, rest)

/-- The rest after one of the words and white space, if they are there. -/
def skipOneOf (words : List String) (cs : Line) : Line :=
  match afterOneOf? words cs with
  | some (_, rest) => rest
  | none => cs

/-- Whether a word that ends here is not continued: no word character
follows. -/
def atWordEnd (cs : Line) : Bool := !cs.head?.any Unicode.isWord

end RakuAtlas.Text
