import RakuAtlas.Proofs.Lexical.Lookahead
import RakuAtlas.Proofs.Lexical.Steps

/-!
# RakuAtlas.Proofs.Lexical.Carried — the state between two lines

A line leaves a state to the next one. Along every text the states are well
formed (`LineState.WellFormed`), and the terminators of the heredocs that are
pending form a queue (`Queues`): heredocs that open on a line go to its end, and
only the line that ends a heredoc takes its terminator from the front.

* `Quote.WellFormed.of_scan`: a scan that does not close leaves a well-formed
  construct.
* `wellFormed_classify`: one line keeps states well formed.
* `pending_classifyCode`: reading code appends the terminators of the heredocs
  that its pieces open, in order.
* `carried_wellFormed`: both along every text.

A heredoc may open on a line that leaves a string open. Then its terminator
waits in the queue until the string is closed, lines later.
-/

namespace RakuAtlas.Lexical

open Text (Line trim)

/-! ## Quoted constructs -/

/-- A quoted construct that can be open. -/
structure Quote.WellFormed (q : Quote) : Prop where
  cls_ne_code : q.cls ≠ .code
  one_le_parts : 1 ≤ q.parts
  parts_le_two : q.parts ≤ 2
  /-- Only patterns have two parts. -/
  cls_of_two : q.parts = 2 → q.cls = .pattern
  /-- Brackets come in pairs. -/
  closing_opener : ∀ bracket, q.opener = some bracket → closing? bracket = some q.closer

namespace Quote

theorem cls_opened (cls : SpanClass) (delimiter : Char) :
    (Quote.opened cls delimiter).cls = cls := by
  unfold Quote.opened
  split
  · rfl
  · rfl

theorem wellFormed_opened {cls : SpanClass} (hcls : cls ≠ .code) (delimiter : Char) :
    (Quote.opened cls delimiter).WellFormed := by
  unfold Quote.opened
  split
  · next closer hcloser =>
    refine ⟨hcls, Nat.le_refl 1, Nat.le_succ 1, by simp, ?_⟩
    intro bracket hbracket
    rw [← Option.some.inj hbracket]
    exact hcloser
  · exact ⟨hcls, Nat.le_refl 1, Nat.le_succ 1, by simp, by simp⟩

theorem WellFormed.verbatim {q : Quote} (h : q.WellFormed) : q.verbatim.WellFormed :=
  ⟨h.cls_ne_code, h.one_le_parts, h.parts_le_two, h.cls_of_two, h.closing_opener⟩

/-- A pattern may have one part or two. -/
theorem wellFormed_withParts {parts : Nat} (hone : 1 ≤ parts) (htwo : parts ≤ 2)
    (delimiter : Char) : ((Quote.opened .pattern delimiter).withParts parts).WellFormed := by
  have hopened := wellFormed_opened (by decide : SpanClass.pattern ≠ .code) delimiter
  exact ⟨hopened.cls_ne_code, hone, htwo, fun _ => cls_opened .pattern delimiter,
    hopened.closing_opener⟩

theorem WellFormed.withDepth {q : Quote} (h : q.WellFormed) (depth : Nat) :
    { q with depth := depth }.WellFormed :=
  ⟨h.cls_ne_code, h.one_le_parts, h.parts_le_two, h.cls_of_two, h.closing_opener⟩

/-- After the first of two parts one is left. -/
theorem WellFormed.nextPart {q : Quote} (h : q.WellFormed) (hparts : ¬q.parts ≤ 1) :
    { q with parts := q.parts - 1 }.WellFormed := by
  have htwo := h.parts_le_two
  have hone : q.parts - 1 = 1 := by omega
  refine ⟨h.cls_ne_code, ?_, ?_, ?_, h.closing_opener⟩
  · show 1 ≤ q.parts - 1
    omega
  · show q.parts - 1 ≤ 2
    omega
  · intro hagain
    rw [show q.parts - 1 = 2 from hagain] at hone
    cases hone

/-- A scan that does not close leaves a well-formed construct. -/
theorem WellFormed.of_scan {q q' : Quote} {phase : Phase} {cs : Line} (hq : q.WellFormed)
    (h : q.scan phase cs = .unclosed q') : q'.WellFormed := by
  -- what one character more in front leaves open is what is left open behind it
  have hrest : ∀ {scan : Scan}, scan.succ = .unclosed q' → scan = .unclosed q' := by
    intro scan hsucc
    cases scan with
    | closed count => cases hsucc
    | unclosed quote => exact hsucc
  fun_induction Quote.scan q phase cs with
  | case1 =>
    cases h
    exact hq
  | case2 q c cs ih => exact ih hq (hrest h)
  | case3 q c cs ih => exact ih hq (hrest h)
  -- in the body: a backslash, an opening bracket, another character, a nested closer
  | case4 q c cs _ ih => exact ih hq (hrest h)
  | case5 q c cs _ _ ih => exact ih (hq.withDepth _) (hrest h)
  | case6 q c cs _ _ _ ih => exact ih hq (hrest h)
  | case7 q c cs _ _ _ _ ih => exact ih (hq.withDepth _) (hrest h)
  | case8 => cases h
  -- the closer of a part that another part follows
  | case9 q c cs _ _ _ _ hparts _ ih => exact ih (hq.nextPart hparts) (hrest h)
  | case10 q c cs _ _ _ _ hparts _ _ _ ih => exact ih (hq.nextPart hparts) (hrest h)
  | case11 => cases h

end Quote

/-- A construct that opens in code is well formed. -/
theorem Quote.Opens.wellFormed {q : Quote} (h : q.Opens) : q.WellFormed := by
  cases h with
  | string _ => exact wellFormed_opened (by decide) _
  | verbatim _ => exact (wellFormed_opened (by decide) _).verbatim
  | comment _ => exact (wellFormed_opened (by decide) _).verbatim
  | pattern _ hone htwo => exact wellFormed_withParts hone htwo _

/-! ## States -/

/-- A state that a line can leave: heredocs are pending unless the next line is
code or documentation, and then there are none. Their bodies may have to wait
for the end of a quoted construct. -/
structure LineState.WellFormed (state : LineState) : Prop where
  code : state.mode = .code → state.pending = []
  pod : ∀ block, state.mode = .pod block → state.pending = []
  heredoc : state.mode = .heredoc → state.pending ≠ []
  quoted : ∀ quote, state.mode = .quoted quote → quote.WellFormed

namespace LineState

theorem wellFormed_initial : initial.WellFormed := ⟨fun _ => rfl, nofun, nofun, nofun⟩

/-- Code that ends with its line is followed by code or by the first heredoc. -/
theorem wellFormed_afterCode (pending : List Line) : (afterCode pending).WellFormed := by
  unfold afterCode
  split
  · exact wellFormed_initial
  · next hpending => exact ⟨nofun, nofun, fun _ => hpending, nofun⟩

theorem wellFormed_quoted {quote : Quote} (h : quote.WellFormed) (pending : List Line) :
    WellFormed ⟨.quoted quote, pending⟩ := by
  refine ⟨nofun, nofun, nofun, ?_⟩
  intro other hother
  rw [← Mode.quoted.inj hother]
  exact h

theorem wellFormed_nonePending {mode : Mode} (hheredoc : mode ≠ .heredoc)
    (hquoted : ∀ quote, mode ≠ .quoted quote) : WellFormed ⟨mode, []⟩ :=
  ⟨fun _ => rfl, fun _ _ => rfl, fun hmode => absurd hmode hheredoc,
    fun quote hmode => absurd hmode (hquoted quote)⟩

@[simp] theorem pending_afterCode (pending : List Line) : (afterCode pending).pending = pending := by
  unfold afterCode
  split
  · next hpending => exact hpending.symm
  · rfl

end LineState

/-- Reading code leaves a well-formed state. -/
theorem wellFormed_classifyCode (r : Reading) :
    (classifyCode r.pending r.before r.rest).2.WellFormed := by
  induction r using Reading.induction with
  | passes hstep ih =>
    rw [hstep.classifyCode]
    exact ih
  | resumes hstep ih =>
    rw [hstep.classifyCode]
    exact ih
  | ends hstep =>
    rw [hstep.classifyCode]
    cases hstep with
    | line => exact LineState.wellFormed_afterCode _
    | @unclosed pending before c text head body token quote quote' hread hopened hscan =>
      have htoken := Token.opens_read c (text ++ (head ++ body))
      rw [hread] at htoken
      have hquote := (opens_of_opened? htoken hopened).wellFormed
      exact LineState.wellFormed_quoted (hquote.of_scan hscan) pending
    | comment hread hopened => exact LineState.wellFormed_afterCode _
    | heredoc hread hname => exact LineState.wellFormed_afterCode _

/-- A documentation directive starts documentation or code. -/
theorem mode_of_podDirective? {line : Line} {mode : Mode} (h : podDirective? line = some mode) :
    mode ≠ .heredoc ∧ ∀ quote, mode ≠ .quoted quote := by
  have hpod : ∀ block : Pod, Mode.pod block ≠ .heredoc ∧ ∀ quote, Mode.pod block ≠ .quoted quote :=
    fun _ => ⟨nofun, nofun⟩
  unfold podDirective? at h
  split at h
  · split at h
    · split at h
      · -- one case for each directive
        split at h
        · cases h
          exact hpod _
        · split at h
          · cases h
            exact hpod _
          · split at h
            · cases h
              exact ⟨nofun, nofun⟩
            · cases h
              exact hpod _
      · cases h
        exact hpod _
    · cases h
  · cases h

/-- A line leaves a well-formed state if it starts in one. -/
theorem wellFormed_classify {state : LineState} (h : state.WellFormed) (line : Line) :
    (classify state line).2.WellFormed := by
  unfold classify
  split
  · next hmode =>
    split
    · next mode hdirective =>
      rcases mode_of_podDirective? hdirective with ⟨hheredoc, hquoted⟩
      rw [h.code hmode]
      exact LineState.wellFormed_nonePending hheredoc hquoted
    · exact wellFormed_classifyCode ⟨state.pending, .start, line⟩
  · next block hmode =>
    rw [h.pod block hmode]
    split
    · exact LineState.wellFormed_initial
    · exact LineState.wellFormed_nonePending nofun nofun
  · exact LineState.wellFormed_afterCode _
  · next quote hmode =>
    split
    · next count hscan => exact wellFormed_classifyCode ⟨state.pending, .start, line.drop count⟩
    · next quote' hscan =>
      exact LineState.wellFormed_quoted ((h.quoted quote hmode).of_scan hscan) state.pending

/-! ## Heredocs -/

/-- The terminator that a piece announces, if its text opens a heredoc. -/
def Piece.heredoc? (p : Piece) : Option Line :=
  match p.cls, p.text with
  | .string, c :: more =>
    match Token.read c more with
    | (.heredoc delimiter, len) => (terminator? delimiter (more.drop len)).map Prod.fst
    | _ => none
  | _, _ => none

/-- The terminators of the heredocs that open on a line, in order. The rest of a
quoted construct and the body of a heredoc open none, whatever they look like. -/
def heredocsOn (state : LineState) (line : Line) : List Line :=
  match state.mode with
  | .code | .pod _ => (classify state line).1.filterMap Piece.heredoc?
  | .quoted _ => (classify state line).1.tail.filterMap Piece.heredoc?
  | .heredoc => []

namespace Piece

theorem heredoc?_of_ne_string {p : Piece} (h : p.cls ≠ .string) : p.heredoc? = none := by
  rcases p with ⟨cls, text⟩
  cases cls with
  | string => exact absurd rfl h
  | _ => rfl

theorem heredoc?_of_read {cls : SpanClass} {c : Char} {more : Line}
    (h : ∀ delimiter, (Token.read c more).1 ≠ .heredoc delimiter) :
    heredoc? ⟨cls, c :: more⟩ = none := by
  unfold heredoc?
  grind

/-- Code in front announces nothing. -/
theorem filterMap_consCode (text : Line) (pieces : List Piece) :
    (consCode text pieces).filterMap heredoc? = pieces.filterMap heredoc? := by
  have hcode : ∀ text, heredoc? ⟨.code, text⟩ = none := fun _ => heredoc?_of_ne_string nofun
  rw [consCode.eq_def]
  split
  · rw [List.filterMap_cons_none (hcode _), List.filterMap_cons_none (hcode _)]
  · rw [List.filterMap_cons_none (hcode _)]

end Piece

namespace Reading

variable {r next : Reading} {text : Line} {piece : Piece} {pieces : List Piece} {state : LineState}

/-- A string is opened by a token of its own. -/
theorem opening_of_opened? {before : Before} {token : Token} {cs : Line} {quote : Quote}
    {head : Nat} (h : opened? before token cs = some (quote, head)) (hstring : quote.cls = .string) :
    token = .opening quote := by
  rcases opened?_cases h with htoken | ⟨-, bracket, -, rfl⟩ | ⟨-, rfl⟩
  · exact htoken
  · rw [Quote.verbatim, Quote.cls_opened] at hstring
    cases hstring
  · rw [Quote.cls_opened] at hstring
    cases hstring

/-- A construct that closes adds the terminator that its text announces. -/
theorem Resumes.pending (h : Resumes r piece next) :
    next.pending = r.pending ++ piece.heredoc?.toList := by
  cases h with
  | @quoted pending before c text head body rest token quote hread hopened hscan =>
    have hnone : Piece.heredoc? ⟨quote.cls, c :: (text ++ (head ++ body))⟩ = none := by
      by_cases hstring : quote.cls = .string
      · -- the token is that of the string, also when what follows the string is cut off
        have htoken := opening_of_opened? hopened hstring
        subst htoken
        have hagain := Token.read_of_delimited hread rfl (head ++ body)
        apply Piece.heredoc?_of_read
        intro delimiter hdelimiter
        rw [hagain] at hdelimiter
        cases hdelimiter
      · exact Piece.heredoc?_of_ne_string hstring
    simp [hnone]
  | @heredoc pending before c text body rest name delimiter hread hname =>
    have hagain := Token.read_of_delimited hread rfl body
    have hname' := terminator?_append hname (Nat.le_refl _) []
    rw [List.append_nil] at hname'
    have hsome : Piece.heredoc? ⟨.string, c :: (text ++ body)⟩ = some name := by
      simp only [Piece.heredoc?, hagain, List.drop_left, hname', Option.map_some]
    simp [hsome]

/-- What goes on to the end of the line announces nothing. -/
theorem Ends.pending (h : Ends r pieces state) :
    state.pending = r.pending ++ pieces.filterMap Piece.heredoc? := by
  cases h with
  | line => simp
  | @unclosed pending before c text head body token quote quote' hread hopened hscan =>
    have hnone : Piece.heredoc? ⟨quote'.cls, c :: (text ++ (head ++ body))⟩ = none := by
      apply Piece.heredoc?_of_read
      rw [hread]
      rintro delimiter rfl
      cases hopened
    simp [hnone]
  | @comment pending before c text rest hread hopened =>
    have hnone : Piece.heredoc? ⟨.comment, c :: (text ++ rest)⟩ = none :=
      Piece.heredoc?_of_ne_string nofun
    simp [hnone]
  | @heredoc pending before c text rest delimiter hread hname =>
    have hnone : Piece.heredoc? ⟨.string, c :: (text ++ rest)⟩ = none := by
      simp only [Piece.heredoc?, hread, List.drop_left, hname, Option.map_none]
    simp [hnone]

end Reading

/-- Reading code appends the terminators of the heredocs that it opens. -/
theorem pending_classifyCode (r : Reading) :
    (classifyCode r.pending r.before r.rest).2.pending =
      r.pending ++ (classifyCode r.pending r.before r.rest).1.filterMap Piece.heredoc? := by
  induction r using Reading.induction with
  | @passes r text next hstep ih =>
    have hpending : next.pending = r.pending := by
      cases hstep
      rfl
    rw [hstep.classifyCode, Piece.filterMap_consCode, ← hpending]
    exact ih
  | @resumes r piece next hstep ih =>
    rw [hstep.classifyCode]
    generalize classifyCode next.pending next.before next.rest = result at ih ⊢
    simp only
    rw [ih, hstep.pending, List.append_assoc, List.filterMap_cons]
    cases piece.heredoc? with
    | none => rfl
    | some name => rfl
  | ends hstep =>
    rw [hstep.classifyCode]
    exact hstep.pending

/-! ## Lines in a row -/

/-- The state after some lines, from a state on. -/
def stateFrom (state : LineState) (lines : List Line) : LineState :=
  lines.foldl (fun state line => (classify state line).2) state

/-- The state after the lines of a text. -/
def stateAfter (lines : List Line) : LineState := stateFrom .initial lines

/-- How a line changes the terminators that are pending. -/
inductive Queues (state : LineState) (line : Line) : List Line → Prop where
  /-- The heredocs that open on the line wait behind those before. -/
  | opens (hmode : state.mode ≠ .heredoc) :
      Queues state line (state.pending ++ heredocsOn state line)
  /-- The line ends the first heredoc. -/
  | ends {more : List Line} (hmode : state.mode = .heredoc)
      (hline : state.pending = trim line :: more) : Queues state line more
  /-- The line is one of the body of the first heredoc. -/
  | goesOn (hmode : state.mode = .heredoc) (hline : state.pending.head? ≠ some (trim line)) :
      Queues state line state.pending

/-- A comment announces nothing. -/
theorem filterMap_whole_comment (line : Line) :
    (Piece.whole .comment line).filterMap Piece.heredoc? = [] := by
  unfold Piece.whole
  split
  · rfl
  · exact List.filterMap_cons_none (Piece.heredoc?_of_ne_string nofun)

/-- Every line treats the pending terminators as a queue. -/
theorem queues_classify (state : LineState) (line : Line) :
    Queues state line (classify state line).2.pending := by
  cases hmode : state.mode with
  | code =>
    have hopens : (classify state line).2.pending = state.pending ++ heredocsOn state line := by
      simp only [heredocsOn, classify, hmode]
      split
      · rw [filterMap_whole_comment, List.append_nil]
      · exact pending_classifyCode ⟨state.pending, .start, line⟩
    rw [hopens]
    refine .opens ?_
    rw [hmode]
    intro hheredoc
    cases hheredoc
  | pod block =>
    have hopens : (classify state line).2.pending = state.pending ++ heredocsOn state line := by
      simp only [heredocsOn, classify, hmode]
      rw [filterMap_whole_comment, List.append_nil]
    rw [hopens]
    refine .opens ?_
    rw [hmode]
    intro hheredoc
    cases hheredoc
  | quoted quote =>
    have hopens : (classify state line).2.pending = state.pending ++ heredocsOn state line := by
      simp only [heredocsOn, classify, hmode]
      split
      · next count hscan => exact pending_classifyCode ⟨state.pending, .start, line.drop count⟩
      · -- the whole line is the rest of the construct
        have htail : ∀ cls, (Piece.whole cls line).tail = [] := by
          intro cls
          unfold Piece.whole
          split <;> rfl
        rw [htail, List.filterMap_nil, List.append_nil]
    rw [hopens]
    refine .opens ?_
    rw [hmode]
    intro hheredoc
    cases hheredoc
  | heredoc =>
    simp only [classify, hmode, LineState.pending_afterCode]
    split
    · next hline =>
      cases hpending : state.pending with
      | nil => simp [hpending] at hline
      | cons name more =>
        rw [hpending, List.head?_cons] at hline
        rw [Option.some.inj hline] at hpending
        exact .ends hmode hpending
    · next hline => exact .goesOn hmode hline

/-- Along a text states stay well formed. -/
theorem wellFormed_stateFrom {state : LineState} (h : state.WellFormed) (lines : List Line) :
    (stateFrom state lines).WellFormed := by
  induction lines generalizing state with
  | nil => exact h
  | cons line more ih => exact ih (wellFormed_classify h line)

/-- After every line of every text the state is well formed, and the next line
treats the pending terminators as a queue that loses nothing. -/
theorem carried_wellFormed (lines : List Line) (line : Line) :
    (stateAfter lines).WellFormed ∧
      Queues (stateAfter lines) line (stateAfter (lines ++ [line])).pending := by
  refine ⟨wellFormed_stateFrom LineState.wellFormed_initial lines, ?_⟩
  have hnext : stateAfter (lines ++ [line]) = (classify (stateAfter lines) line).2 := by
    rw [stateAfter, stateFrom, List.foldl_append]
    rfl
  rw [hnext]
  exact queues_classify (stateAfter lines) line

-- two heredocs open on a line that leaves a string open: they wait for its end
example : stateAfter ["f q:to/A/, q:to/B/, 'x".toList, "q:to/C/'".toList] =
    ⟨.heredoc, ["A".toList, "B".toList]⟩ := by decide +kernel

end RakuAtlas.Lexical
