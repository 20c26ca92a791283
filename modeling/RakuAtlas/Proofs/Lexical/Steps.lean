import RakuAtlas.Proofs.Lexical.Reach

/-!
# RakuAtlas.Proofs.Lexical.Steps — code read step by step

Reading code is a machine over the rest of the line. A `Reading` is where it
stands. From there it passes a token that means nothing more (`Passes`), takes
a construct that closes and resumes behind it (`Resumes`), or gives the rest
of the line away (`Ends`). Each rule splits the rest of the line into the part
that is taken and the part that is left, so that no rule can take more than
there is or cut a character.

* `Reading.progress`: one of the three applies wherever the machine stands.
* `Reading.induction`: what the three carry back holds of every reading.
* `Passes.classifyCode`, `Resumes.classifyCode` and `Ends.classifyCode`: what
  `classifyCode` does is what the rules say.
-/

namespace RakuAtlas.Lexical

open Text (Line)

/-- Where the reading of code stands: the heredocs announced so far, what
stands before, and the rest of the line. -/
structure Reading where
  pending : List Line
  before : Before
  rest : Line

namespace Reading

/-- A token that neither opens a construct nor starts a comment. -/
inductive Passes : Reading → Line → Reading → Prop where
  | token {pending : List Line} {before : Before} {c : Char} {text rest : Line} {token : Token}
      (hread : Token.read c (text ++ rest) = (token, text.length))
      (hopened : opened? before token rest = none)
      (hhash : token ≠ .hash) (hheredoc : ∀ delimiter, token ≠ .heredoc delimiter) :
      Passes ⟨pending, before, c :: (text ++ rest)⟩ (c :: text)
        ⟨pending, before.step token, rest⟩

/-- A construct that closes on the line. -/
inductive Resumes : Reading → Piece → Reading → Prop where
  | quoted {pending : List Line} {before : Before} {c : Char} {text head body rest : Line}
      {token : Token} {quote : Quote}
      (hread : Token.read c (text ++ (head ++ (body ++ rest))) = (token, text.length))
      (hopened : opened? before token (head ++ (body ++ rest)) = some (quote, head.length))
      (hscan : quote.scan .body (body ++ rest) = .closed body.length) :
      Resumes ⟨pending, before, c :: (text ++ (head ++ (body ++ rest)))⟩
        ⟨quote.cls, c :: (text ++ (head ++ body))⟩ ⟨pending, .term, rest⟩
  | heredoc {pending : List Line} {before : Before} {c : Char} {text body rest name : Line}
      {delimiter : Char}
      (hread : Token.read c (text ++ (body ++ rest)) = (.heredoc delimiter, text.length))
      (hname : terminator? delimiter (body ++ rest) = some (name, body.length)) :
      Resumes ⟨pending, before, c :: (text ++ (body ++ rest))⟩
        ⟨.string, c :: (text ++ body)⟩ ⟨pending ++ [name], .term, rest⟩

/-- The end of the line, or something that goes on to the end of the line. -/
inductive Ends : Reading → List Piece → LineState → Prop where
  | line {pending : List Line} {before : Before} : Ends ⟨pending, before, []⟩ [] (.afterCode pending)
  | unclosed {pending : List Line} {before : Before} {c : Char} {text head body : Line}
      {token : Token} {quote quote' : Quote}
      (hread : Token.read c (text ++ (head ++ body)) = (token, text.length))
      (hopened : opened? before token (head ++ body) = some (quote, head.length))
      (hscan : quote.scan .body body = .unclosed quote') :
      Ends ⟨pending, before, c :: (text ++ (head ++ body))⟩
        [⟨quote'.cls, c :: (text ++ (head ++ body))⟩] ⟨.quoted quote', pending⟩
  | comment {pending : List Line} {before : Before} {c : Char} {text rest : Line}
      (hread : Token.read c (text ++ rest) = (.hash, text.length))
      (hopened : opened? before .hash rest = none) :
      Ends ⟨pending, before, c :: (text ++ rest)⟩ [⟨.comment, c :: (text ++ rest)⟩]
        (.afterCode pending)
  | heredoc {pending : List Line} {before : Before} {c : Char} {text rest : Line}
      {delimiter : Char} (hread : Token.read c (text ++ rest) = (.heredoc delimiter, text.length))
      (hname : terminator? delimiter rest = none) :
      Ends ⟨pending, before, c :: (text ++ rest)⟩ [⟨.string, c :: (text ++ rest)⟩]
        (.afterCode pending)

/-! ## Progress -/

/-- A list splits at every count that it reaches. -/
theorem exists_append_of_le {cs : Line} {n : Nat} (h : n ≤ cs.length) :
    ∃ front back, cs = front ++ back ∧ n = front.length :=
  ⟨cs.take n, cs.drop n, (List.take_append_drop n cs).symm, by rw [List.length_take]; omega⟩

/-- Wherever the reading stands, it can go on or is at its end. -/
theorem progress (r : Reading) :
    (∃ text next, Passes r text next) ∨ (∃ piece next, Resumes r piece next) ∨
      ∃ pieces state, Ends r pieces state := by
  rcases r with ⟨pending, before, cs⟩
  cases cs with
  | nil => exact Or.inr (Or.inr ⟨_, _, .line⟩)
  | cons c more =>
    rcases hread : Token.read c more with ⟨token, len⟩
    have hlen := Token.read_le c more
    rw [hread] at hlen
    rcases exists_append_of_le hlen with ⟨text, rest, rfl, rfl⟩
    rcases hopened : opened? before token rest with _ | ⟨quote, len⟩
    · -- nothing is opened: a comment, a here-document or a plain token
      by_cases hhash : token = .hash
      · subst hhash
        exact Or.inr (Or.inr ⟨_, _, .comment hread hopened⟩)
      by_cases hheredoc : ∃ delimiter, token = .heredoc delimiter
      · rcases hheredoc with ⟨delimiter, rfl⟩
        rcases hname : terminator? delimiter rest with _ | ⟨name, len⟩
        · exact Or.inr (Or.inr ⟨_, _, .heredoc hread hname⟩)
        · rcases exists_append_of_le (terminator?_le hname) with ⟨body, rest, rfl, rfl⟩
          exact Or.inr (Or.inl ⟨_, _, .heredoc hread hname⟩)
      · exact Or.inl ⟨_, _, .token hread hopened hhash (not_exists.1 hheredoc)⟩
    · -- something is opened, and is closed on the line or not
      rcases exists_append_of_le (opened?_le hopened) with ⟨head, rest, rfl, rfl⟩
      rcases hscan : quote.scan .body rest with count | quote'
      · rcases exists_append_of_le (Quote.scan_closed hscan).2 with ⟨body, rest, rfl, rfl⟩
        exact Or.inr (Or.inl ⟨_, _, .quoted hread hopened hscan⟩)
      · exact Or.inr (Or.inr ⟨_, _, .unclosed hread hopened hscan⟩)

/-! ## What a step takes -/

variable {r next : Reading} {text : Line} {piece : Piece} {pieces : List Piece} {state : LineState}

/-- What is passed stands in front of what is left. -/
theorem Passes.append (h : Passes r text next) : text ≠ [] ∧ r.rest = text ++ next.rest := by
  cases h with
  | token hread hopened hhash hheredoc => exact ⟨List.cons_ne_nil _ _, rfl⟩

/-- The construct stands in front of what is left. -/
theorem Resumes.append (h : Resumes r piece next) :
    piece.text ≠ [] ∧ r.rest = piece.text ++ next.rest := by
  cases h with
  | quoted hread hopened hscan => exact ⟨List.cons_ne_nil _ _, by simp⟩
  | heredoc hread hname => exact ⟨List.cons_ne_nil _ _, by simp⟩

/-- Nothing is left at the end. -/
theorem Ends.join (h : Ends r pieces state) :
    Piece.join pieces = r.rest ∧ ∀ piece ∈ pieces, piece.text ≠ [] := by
  cases h with
  | line => exact ⟨rfl, by simp⟩
  | unclosed hread hopened hscan => exact ⟨by simp, by simp⟩
  | comment hread hopened => exact ⟨by simp, by simp⟩
  | heredoc hread hname => exact ⟨by simp, by simp⟩

/-- What each step carries back from the next reading, and every end has, holds
of every reading: every step leaves less of the line. -/
theorem induction {motive : Reading → Prop}
    (passes : ∀ {r text next}, Passes r text next → motive next → motive r)
    (resumes : ∀ {r piece next}, Resumes r piece next → motive next → motive r)
    (ends : ∀ {r pieces state}, Ends r pieces state → motive r) (r : Reading) : motive r := by
  have hshorter : ∀ {r next : Reading} {taken : Line}, taken ≠ [] ∧ r.rest = taken ++ next.rest →
      next.rest.length < r.rest.length := by
    rintro r next taken ⟨htaken, hrest⟩
    have hpos := List.length_pos_iff.2 htaken
    rw [hrest, List.length_append]
    omega
  generalize hn : r.rest.length = n
  induction n using Nat.strongRecOn generalizing r with
  | ind n ih =>
    subst hn
    rcases r.progress with ⟨text, next, hstep⟩ | ⟨piece, next, hstep⟩ | ⟨pieces, state, hstep⟩
    · exact passes hstep (ih _ (hshorter hstep.append) next rfl)
    · exact resumes hstep (ih _ (hshorter hstep.append) next rfl)
    · exact ends hstep

/-! ## The machine and the function -/

theorem Passes.classifyCode (h : Passes r text next) :
    Lexical.classifyCode r.pending r.before r.rest =
      (Piece.consCode text (Lexical.classifyCode next.pending next.before next.rest).1,
        (Lexical.classifyCode next.pending next.before next.rest).2) := by
  cases h with
  | token hread hopened hhash hheredoc =>
    simp only
    rw [Lexical.classifyCode]
    simp only [hread, List.drop_left, List.take_left, hopened]

theorem Resumes.classifyCode (h : Resumes r piece next) :
    Lexical.classifyCode r.pending r.before r.rest =
      (piece :: (Lexical.classifyCode next.pending next.before next.rest).1,
        (Lexical.classifyCode next.pending next.before next.rest).2) := by
  cases h with
  | quoted hread hopened hscan =>
    simp only
    rw [Lexical.classifyCode]
    simp only [hread, List.drop_left, List.take_left, hopened, hscan]
    simp
  | heredoc hread hname =>
    simp only
    rw [Lexical.classifyCode]
    simp only [hread, List.drop_left, List.take_left, opened?, hname]
    simp

theorem Ends.classifyCode (h : Ends r pieces state) :
    Lexical.classifyCode r.pending r.before r.rest = (pieces, state) := by
  cases h with
  | line => rw [Lexical.classifyCode]
  | unclosed hread hopened hscan =>
    simp only
    rw [Lexical.classifyCode]
    simp only [hread, List.drop_left, hopened, hscan]
  | comment hread hopened =>
    simp only
    rw [Lexical.classifyCode]
    simp only [hread, List.drop_left, hopened]
  | heredoc hread hname =>
    simp only
    rw [Lexical.classifyCode]
    simp only [hread, List.drop_left, opened?, hname]

end Reading

end RakuAtlas.Lexical
