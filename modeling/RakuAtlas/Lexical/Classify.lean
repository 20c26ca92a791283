import RakuAtlas.Lexical.State
import RakuAtlas.Lexical.Token

/-!
# RakuAtlas.Lexical.Classify — classifying one line

`classify` cuts a line into pieces, given the state that the line before left,
and says what state it leaves itself.

A line of code is read token by token. A slash opens a pattern where a term
is expected: at the start, after an operator or after a keyword. After any
other word it depends on the spacing, since `grep /x/` calls and `a / b`
divides.
-/

namespace RakuAtlas.Lexical

open Unicode (isBlank)
open Text (Line trim trimStart words)

/-! ## What stands before a token -/

/-- What stands before a token, as far as a slash cares. -/
inductive Before where
  | start
  | operator
  | term
  | dot
  | keyword
  /-- Any other word, with or without blanks after it. -/
  | word (spaced : Bool)
deriving DecidableEq, Repr

namespace Before

/-- What stands before the next token. -/
def step (before : Before) : Token → Before
  | .blank =>
    match before with
    | .word _ => .word true
    | other => other
  | .word expectsTerm =>
    if before = .dot then .term
    else if expectsTerm then .keyword
    else .word false
  | .dot => .dot
  | .term => .term
  | _ => .operator

/-- Whether a slash opens a pattern here, followed by `cs`. -/
def opensPattern (before : Before) (cs : Line) : Bool :=
  match before with
  | .start | .operator | .keyword => true
  | .term | .dot => false
  | .word spaced => spaced && cs.head?.any fun c => !isBlank c

end Before

/-! ## Code -/

/-- After the hash of a comment: the bracketed comment that a mark and an
opening bracket begin. -/
def bracketComment? : Line → Option Quote
  | mark :: bracket :: _ =>
    if (mark = '`' || mark = '|' || mark = '=') && (closing? bracket).isSome then
      some (Quote.opened .comment bracket).verbatim
    else none
  | _ => none

/-- The quoted construct that opens with this token, if one does, and how
many characters of `cs` belong to its opening. -/
def opened? (before : Before) (token : Token) (cs : Line) : Option (Quote × Nat) :=
  match token with
  | .opening quote => some (quote, 0)
  | .hash => (bracketComment? cs).map (·, 2)
  | .slash => if before.opensPattern cs then some (Quote.opened .pattern '/', 0) else none
  | _ => none

/-- The terminator of a heredoc and the characters it takes up with its
closing delimiter. `none` if that delimiter is missing. -/
def terminator? (delimiter : Char) (cs : Line) : Option (Line × Nat) :=
  let closer := (closing? delimiter).getD delimiter
  if cs.contains closer then
    let inner := cs.takeWhile (· ≠ closer)
    some (trim inner, inner.length + 1)
  else none

/-- Classify code up to the end of the line. -/
def classifyCode (pending : List Line) (before : Before) (cs : Line) : List Piece × LineState :=
  match cs with
  | [] => ([], .afterCode pending)
  | c :: more =>
    let (token, len) := Token.read c more
    let text := c :: more.take len
    let rest := more.drop len
    match opened? before token rest with
    | some (quote, head) =>
      let body := rest.drop head
      match quote.scan .body body with
      | .closed count =>
        let (pieces, state) := classifyCode pending .term (body.drop count)
        (⟨quote.cls, text ++ rest.take head ++ body.take count⟩ :: pieces, state)
      | .unclosed quote => ([⟨quote.cls, cs⟩], ⟨.quoted quote, pending⟩)
    | none =>
      match token with
      | .hash => ([⟨.comment, cs⟩], .afterCode pending)
      | .heredoc delimiter =>
        match terminator? delimiter rest with
        | some (name, count) =>
          let (pieces, state) := classifyCode (pending ++ [name]) .term (rest.drop count)
          (⟨.string, text ++ rest.take count⟩ :: pieces, state)
        | none => ([⟨.string, cs⟩], .afterCode pending)
      | token =>
        let (pieces, state) := classifyCode pending (before.step token) rest
        (Piece.consCode text pieces, state)
termination_by cs.length
decreasing_by
  all_goals
    simp +zetaDelta only [List.length_cons, List.length_drop]
    omega

/-! ## Documentation -/

/-- The mode after a line that begins with a documentation directive. -/
def podDirective? (cs : Line) : Option Mode :=
  match trimStart cs with
  | '=' :: rest =>
    if rest.head?.any Char.isAlpha then
      match words rest with
      | word :: more =>
        if word = "begin".toList then some (.pod (.delimited (more.headD [])))
        else if word = "finish".toList || word = "END".toList then some (.pod .finish)
        else if word = "end".toList then some .code
        else some (.pod .paragraph)
      | [] => some (.pod .paragraph)
    else none
  | _ => none

/-- Whether a line ends a documentation block. -/
def Pod.endsAt (block : Pod) (cs : Line) : Bool :=
  match block with
  | .paragraph => (trim cs).isEmpty
  | .finish => false
  | .delimited name =>
    match words cs with
    | word :: more => word == "=end".toList && (name.isEmpty || more.head? == some name)
    | [] => false

/-! ## Lines -/

/-- Classify one line. -/
def classify (state : LineState) (cs : Line) : List Piece × LineState :=
  match state.mode with
  | .code =>
    match podDirective? cs with
    | some mode => (Piece.whole .comment cs, ⟨mode, state.pending⟩)
    | none => classifyCode state.pending .start cs
  | .pod block =>
    (Piece.whole .comment cs, ⟨if block.endsAt cs then .code else .pod block, state.pending⟩)
  | .heredoc =>
    let pending := if state.pending.head? = some (trim cs) then state.pending.tail
      else state.pending
    (Piece.whole .string cs, .afterCode pending)
  | .quoted quote =>
    match quote.scan .body cs with
    | .closed count =>
      let (pieces, state) := classifyCode state.pending .start (cs.drop count)
      (⟨quote.cls, cs.take count⟩ :: pieces, state)
    | .unclosed quote => (Piece.whole quote.cls cs, ⟨.quoted quote, state.pending⟩)

end RakuAtlas.Lexical
