import RakuAtlas.Proofs.Lexical.Steps
import RakuAtlas.Proofs.Text.Lines
import Mathlib.Data.List.Chain

/-!
# RakuAtlas.Proofs.Lexical.Tiling — the spans of a line

Whatever state a line starts in, classifying it cuts it into pieces of which
none is empty and which together are the line (`isCut_classify`). As byte
ranges they tile it (`Tiles`).

* `isCut_classifyCode`: along the steps of the reading of code nothing is lost.
* `IsCut.tiles`: the spans of a cut follow one another from the start of the
  line to its end, between characters.
* `classify_tiles`: the spans of every line tile it, and every time the reading
  of code resumes, it does so at a larger offset.
-/

namespace RakuAtlas.Lexical

open Text (Line byteLen byteLen_append byteLen_pos cutBytes? cutBytes?_byteLen)

/-! ## Cuts -/

/-- The pieces are cut from the line, and none is empty. -/
structure IsCut (line : Line) (pieces : List Piece) : Prop where
  join_eq : Piece.join pieces = line
  ne_nil : ∀ piece ∈ pieces, piece.text ≠ []

theorem isCut_whole (cls : SpanClass) (line : Line) : IsCut line (Piece.whole cls line) where
  join_eq := Piece.join_whole cls line
  ne_nil := by
    intro piece hpiece
    unfold Piece.whole at hpiece
    split at hpiece
    · simp at hpiece
    · next hline =>
      rw [List.mem_singleton] at hpiece
      rw [hpiece]
      exact hline

/-- A piece may be put in front. -/
theorem IsCut.cons {line : Line} {pieces : List Piece} (h : IsCut line pieces) {piece : Piece}
    (hpiece : piece.text ≠ []) : IsCut (piece.text ++ line) (piece :: pieces) where
  join_eq := by rw [Piece.join_cons, h.join_eq]
  ne_nil := List.forall_mem_cons.2 ⟨hpiece, h.ne_nil⟩

/-- Code may be put in front, also where it joins the first piece. -/
theorem IsCut.consCode {line : Line} {pieces : List Piece} (h : IsCut line pieces) {text : Line}
    (htext : text ≠ []) : IsCut (text ++ line) (Piece.consCode text pieces) where
  join_eq := by rw [Piece.join_consCode, h.join_eq]
  ne_nil := by
    rw [Piece.consCode.eq_def]
    split
    · have hmore := (List.forall_mem_cons.1 h.ne_nil).2
      exact List.forall_mem_cons.2 ⟨by simp [htext], hmore⟩
    · exact List.forall_mem_cons.2 ⟨htext, h.ne_nil⟩

/-- Reading code cuts the rest of the line. -/
theorem isCut_classifyCode (r : Reading) :
    IsCut r.rest (classifyCode r.pending r.before r.rest).1 := by
  induction r using Reading.induction with
  | passes hstep ih =>
    rcases hstep.append with ⟨htext, hrest⟩
    rw [hstep.classifyCode, hrest]
    exact ih.consCode htext
  | resumes hstep ih =>
    rcases hstep.append with ⟨htext, hrest⟩
    rw [hstep.classifyCode, hrest]
    exact ih.cons htext
  | ends hstep =>
    rcases hstep.join with ⟨hjoin, hne⟩
    rw [hstep.classifyCode]
    exact ⟨hjoin, hne⟩

/-- Classifying a line cuts it, whatever state it starts in. -/
theorem isCut_classify (state : LineState) (line : Line) : IsCut line (classify state line).1 := by
  unfold classify
  split
  · -- code, or a documentation block that starts here
    split
    · exact isCut_whole ..
    · exact isCut_classifyCode ⟨state.pending, .start, line⟩
  · exact isCut_whole ..
  · exact isCut_whole ..
  · -- a quoted construct that goes on from the line before
    next quote _ =>
    split
    · next count hscan =>
      rcases Quote.scan_closed hscan with ⟨hpos, hle⟩
      have hrest := isCut_classifyCode ⟨state.pending, .start, line.drop count⟩
      have htaken : line.take count ≠ [] := by
        intro hnil
        have hlength := congrArg List.length hnil
        rw [List.length_take, List.length_nil] at hlength
        omega
      have hcut := @IsCut.cons _ _ hrest ⟨quote.cls, line.take count⟩ htaken
      rw [List.take_append_drop] at hcut
      exact hcut
    · exact isCut_whole ..

/-! ## Tilings -/

/-- Whether an offset falls between two characters, or at either end. -/
def IsBoundary (line : Line) (offset : Nat) : Prop := (cutBytes? offset line).isSome

/-- A line has a boundary behind each of its fronts. -/
theorem isBoundary_byteLen (front back : Line) : IsBoundary (front ++ back) (byteLen front) := by
  rw [IsBoundary, cutBytes?_byteLen]
  rfl

/-- The spans follow one another from the start of the line to its end, none is
empty, and all begin and end between characters. -/
structure Tiles (line : Line) (spans : List Span) : Prop where
  eq_nil_iff : spans = [] ↔ line = []
  start_head : ∀ span ∈ spans.head?, span.start = 0
  stop_last : ∀ span ∈ spans.getLast?, span.stop = byteLen line
  start_lt_stop : ∀ span ∈ spans, span.start < span.stop
  adjacent : spans.IsChain fun a b => a.stop = b.start
  boundaries : ∀ span ∈ spans, IsBoundary line span.start ∧ IsBoundary line span.stop

theorem start_head_spansFrom (offset : Nat) (pieces : List Piece) :
    ∀ span ∈ (Piece.spansFrom offset pieces).head?, span.start = offset := by
  cases pieces with
  | nil => simp [Piece.spansFrom]
  | cons piece more => simp [Piece.spansFrom]

theorem stop_last_spansFrom (offset : Nat) (pieces : List Piece) :
    ∀ span ∈ (Piece.spansFrom offset pieces).getLast?,
      span.stop = offset + byteLen (Piece.join pieces) := by
  induction pieces generalizing offset with
  | nil => simp [Piece.spansFrom]
  | cons piece more ih =>
    intro span hspan
    cases more with
    | nil =>
      simp only [Piece.spansFrom, List.getLast?_singleton, Option.mem_some_iff] at hspan
      simp [← hspan]
    | cons next others =>
      rw [Piece.spansFrom, Piece.spansFrom, List.getLast?_cons_cons] at hspan
      have hlast := ih (offset + byteLen piece.text) span hspan
      rw [hlast, Piece.join_cons piece, byteLen_append]
      omega

theorem adjacent_spansFrom (offset : Nat) (pieces : List Piece) :
    (Piece.spansFrom offset pieces).IsChain fun a b => a.stop = b.start := by
  induction pieces generalizing offset with
  | nil => exact .nil
  | cons piece more ih =>
    rw [Piece.spansFrom, List.isChain_cons]
    refine ⟨?_, ih _⟩
    intro span hspan
    exact (start_head_spansFrom _ more span hspan).symm

/-- A span of a cut stands behind a front of the line and is as long as its
piece. -/
theorem exists_piece_of_mem_spansFrom {front : Line} {pieces : List Piece} {span : Span}
    (h : span ∈ Piece.spansFrom (byteLen front) pieces) :
    ∃ piece ∈ pieces, ∃ before after, front ++ Piece.join pieces = before ++ (piece.text ++ after) ∧
      span.start = byteLen before ∧ span.stop = byteLen (before ++ piece.text) := by
  induction pieces generalizing front with
  | nil => simp [Piece.spansFrom] at h
  | cons piece more ih =>
    rw [Piece.spansFrom] at h
    rcases List.mem_cons.1 h with rfl | hmore
    · exact ⟨piece, List.mem_cons_self .., front, Piece.join more, by simp, rfl, by simp⟩
    · rw [← byteLen_append] at hmore
      rcases ih hmore with ⟨other, hother, before, after, hline, hstart, hstop⟩
      refine ⟨other, List.mem_cons_of_mem _ hother, before, after, ?_, hstart, hstop⟩
      rw [← hline, Piece.join_cons, List.append_assoc]

/-- The spans of a cut tile the line. -/
theorem IsCut.tiles {line : Line} {pieces : List Piece} (h : IsCut line pieces) :
    Tiles line (Piece.spans pieces) := by
  -- each span comes from a piece, and stands behind a front of the line
  have hmem : ∀ span ∈ Piece.spans pieces, ∃ piece ∈ pieces, ∃ before after,
      line = before ++ (piece.text ++ after) ∧ span.start = byteLen before ∧
      span.stop = byteLen (before ++ piece.text) := by
    intro span hspan
    have hpiece := @exists_piece_of_mem_spansFrom [] pieces span hspan
    rw [List.nil_append, h.join_eq] at hpiece
    exact hpiece
  refine ⟨?_, start_head_spansFrom 0 pieces, ?_, ?_, adjacent_spansFrom 0 pieces, ?_⟩
  · -- no piece is empty, so that only the empty line has none
    rw [← h.join_eq]
    cases pieces with
    | nil => simp [Piece.spans, Piece.spansFrom]
    | cons piece more =>
      have hpiece := h.ne_nil piece (List.mem_cons_self ..)
      simp [Piece.spans, Piece.spansFrom, hpiece]
  · intro span hspan
    have hlast := stop_last_spansFrom 0 pieces span hspan
    rw [h.join_eq, Nat.zero_add] at hlast
    exact hlast
  · intro span hspan
    rcases hmem span hspan with ⟨piece, hpiece, before, after, -, hstart, hstop⟩
    have hpos := byteLen_pos (h.ne_nil piece hpiece)
    rw [hstart, hstop, byteLen_append]
    omega
  · intro span hspan
    rcases hmem span hspan with ⟨piece, -, before, after, rfl, hstart, hstop⟩
    constructor
    · rw [hstart]
      exact isBoundary_byteLen before _
    · rw [hstop, ← List.append_assoc]
      exact isBoundary_byteLen (before ++ piece.text) after

/-! ## Where code is read -/

/-- The places of a line at which the reading of code stands. -/
inductive Reached (state : LineState) (line : Line) : Reading → Prop where
  | code (hmode : state.mode = .code) (hpod : podDirective? line = none) :
      Reached state line ⟨state.pending, .start, line⟩
  | quoted {quote : Quote} {count : Nat} (hmode : state.mode = .quoted quote)
      (hscan : quote.scan .body line = .closed count) :
      Reached state line ⟨state.pending, .start, line.drop count⟩
  | passed {r next : Reading} {text : Line} (hr : Reached state line r)
      (hstep : r.Passes text next) : Reached state line next
  | resumed {r next : Reading} {piece : Piece} (hr : Reached state line r)
      (hstep : r.Resumes piece next) : Reached state line next

/-- How far into the line the reading stands, in bytes. -/
def Reading.offset (r : Reading) (line : Line) : Nat := byteLen line - byteLen r.rest

/-- What the reading makes of the rest of the line. -/
def Reading.outcome (r : Reading) : List Piece × LineState :=
  classifyCode r.pending r.before r.rest

/-- The reading stands behind a front of the line. -/
theorem Reached.suffix {state : LineState} {line : Line} {r : Reading}
    (h : Reached state line r) : ∃ front, line = front ++ r.rest := by
  induction h with
  | code hmode hpod => exact ⟨[], rfl⟩
  | @quoted quote count hmode hscan => exact ⟨line.take count, (List.take_append_drop ..).symm⟩
  | passed hr hstep ih =>
    rcases ih with ⟨front, hline⟩
    rcases hstep.append with ⟨-, hrest⟩
    exact ⟨front ++ _, by rw [hline, hrest, List.append_assoc]⟩
  | resumed hr hstep ih =>
    rcases ih with ⟨front, hline⟩
    rcases hstep.append with ⟨-, hrest⟩
    exact ⟨front ++ _, by rw [hline, hrest, List.append_assoc]⟩

theorem offset_eq_byteLen {r : Reading} {line front : Line} (h : line = front ++ r.rest) :
    r.offset line = byteLen front := by
  rw [Reading.offset, h, byteLen_append]
  omega

/-- Where something is taken, the reading goes on at a larger offset. -/
theorem offset_lt_offset {r next : Reading} {line front taken : Line}
    (hline : line = front ++ r.rest) (htaken : taken ≠ []) (hrest : r.rest = taken ++ next.rest) :
    r.offset line < next.offset line := by
  have hpos := byteLen_pos htaken
  have hnext : line = (front ++ taken) ++ next.rest := by rw [hline, hrest, List.append_assoc]
  rw [offset_eq_byteLen hline, offset_eq_byteLen hnext, byteLen_append]
  omega

/-- The spans of every line tile it, whatever state the line starts in. Where
code is read, the reading stands between characters and is never stuck: it
passes a token, takes a construct that closes or ends the line, by rules that
split the rest of the line. After a construct it resumes at a larger offset
that is still in the line, and what it makes of the line is the construct and
what it makes of the rest. -/
theorem classify_tiles (state : LineState) (line : Line) :
    Tiles line (Piece.spans (classify state line).1) ∧
      ∀ r, Reached state line r →
        IsBoundary line (r.offset line) ∧
        ((∃ text next, r.Passes text next) ∨ (∃ piece next, r.Resumes piece next) ∨
          ∃ pieces final, r.Ends pieces final) ∧
        (∀ text next, r.Passes text next → r.offset line < next.offset line) ∧
        ∀ piece next, r.Resumes piece next →
          r.offset line < next.offset line ∧ next.offset line ≤ byteLen line ∧
          IsBoundary line (next.offset line) ∧
          r.outcome = (piece :: next.outcome.1, next.outcome.2) := by
  have hboundary : ∀ r, Reached state line r → IsBoundary line (r.offset line) := by
    intro r hr
    rcases hr.suffix with ⟨front, hline⟩
    rw [offset_eq_byteLen hline, hline]
    exact isBoundary_byteLen front r.rest
  refine ⟨(isCut_classify state line).tiles, ?_⟩
  intro r hr
  rcases hr.suffix with ⟨front, hline⟩
  refine ⟨hboundary r hr, r.progress, ?_, ?_⟩
  · intro text next hstep
    rcases hstep.append with ⟨htext, hrest⟩
    exact offset_lt_offset hline htext hrest
  · intro piece next hstep
    rcases hstep.append with ⟨htext, hrest⟩
    exact ⟨offset_lt_offset hline htext hrest, Nat.sub_le .., hboundary next (hr.resumed hstep),
      hstep.classifyCode⟩

/-- A substitution with a gap between its bracketed parts and a character of
two bytes. -/
def substitution : Reading := ⟨[], .start, "s[é] [b] . 'x'".toList⟩

/-- The reading behind it. -/
def behindSubstitution : Reading := ⟨[], .term, " . 'x'".toList⟩

theorem substitution_resumes :
    Reached .initial substitution.rest substitution ∧
      substitution.Resumes ⟨.pattern, "s[é] [b]".toList⟩ behindSubstitution ∧
      substitution.offset substitution.rest < behindSubstitution.offset substitution.rest := by
  have hreached : Reached .initial substitution.rest substitution := .code rfl (by decide +kernel)
  have hresumes : substitution.Resumes ⟨.pattern, "s[é] [b]".toList⟩ behindSubstitution :=
    @Reading.Resumes.quoted [] .start 's' ['['] [] "é] [b]".toList " . 'x'".toList
      (.opening ⟨.pattern, some '[', ']', 0, 2, true⟩) ⟨.pattern, some '[', ']', 0, 2, true⟩
      (by decide +kernel) (by decide +kernel) (by decide +kernel)
  rcases (classify_tiles .initial substitution.rest).2 substitution hreached with ⟨-, -, -, hnext⟩
  exact ⟨hreached, hresumes, (hnext _ _ hresumes).1⟩

end RakuAtlas.Lexical
