import RakuAtlas.Proofs.Lexical.Lookahead
import RakuAtlas.Proofs.Lexical.Tiling

/-!
# RakuAtlas.Proofs.Lexical.Runs — code read several steps on

`Runs r pieces next` says that the reading of code gets from `r` to `next` and
takes the pieces on the way, one for each step.

* `Runs.replace`: a run that comes to a mark can be made whatever stands behind
  the mark. This is what two lines have in common that are the same up to there.
* `exists_runs_of_mem_spansFrom`: every span that is not code is one that a run
  comes to.
-/

namespace RakuAtlas.Lexical

open Text (Line byteLen byteLen_append)
open Unicode (isBlank)

namespace Reading

/-- From one reading to another, with what is taken on the way. -/
inductive Runs : Reading → List Piece → Reading → Prop where
  | here {r : Reading} : Runs r [] r
  | passes {r next final : Reading} {text : Line} {pieces : List Piece}
      (hstep : r.Passes text next) (hruns : Runs next pieces final) :
      Runs r (⟨.code, text⟩ :: pieces) final
  | resumes {r next final : Reading} {piece : Piece} {pieces : List Piece}
      (hstep : r.Resumes piece next) (hruns : Runs next pieces final) :
      Runs r (piece :: pieces) final

variable {r next final : Reading} {text : Line} {piece : Piece} {pieces : List Piece}
  {x : Char} {front back : Line}

/-- What a run takes stands in front of what is left. -/
theorem Runs.rest_eq (h : Runs r pieces final) : r.rest = Piece.join pieces ++ final.rest := by
  induction h with
  | here => rfl
  | passes hstep hruns ih =>
    rw [hstep.append.2, ih, Piece.join_cons, List.append_assoc]
  | resumes hstep hruns ih =>
    rw [hstep.append.2, ih, Piece.join_cons, List.append_assoc]

/-! ## Another line behind a mark -/

/-- The reading with another rest of the line. -/
def withRest (r : Reading) (rest : Line) : Reading := { r with rest := rest }

theorem Passes.replace (hx : IsMark x) (h : Passes r text next)
    (hrest : next.rest = front ++ x :: back) (back' : Line) :
    Passes (r.withRest (text ++ (front ++ x :: back'))) text
      (next.withRest (front ++ x :: back')) := by
  cases h with
  | @token pending before c text rest token hread hopened hhash hheredoc =>
    obtain rfl : rest = front ++ x :: back := hrest
    rw [← List.append_assoc, Token.read_stop hx, ← Token.read_stop hx c (text ++ front) back',
      List.append_assoc] at hread
    rw [opened?_stop hx, ← opened?_stop hx before token front back'] at hopened
    exact .token hread hopened hhash hheredoc

theorem Resumes.replace (hx : IsMark x) (h : Resumes r piece next)
    (hrest : next.rest = front ++ x :: back) (back' : Line) :
    Resumes (r.withRest (piece.text ++ (front ++ x :: back'))) piece
      (next.withRest (front ++ x :: back')) := by
  have hblank : isBlank x = false := by rcases hx with rfl | rfl <;> decide
  -- the readers see the line up to the mark
  have hsplit : ∀ a b tail : Line, a ++ (b ++ x :: tail) = (a ++ b) ++ x :: tail :=
    fun a b tail => (List.append_assoc a b (x :: tail)).symm
  cases h with
  | @quoted pending before c text head body rest token quote hread hopened hscan =>
    obtain rfl : rest = front ++ x :: back := hrest
    rw [hsplit, hsplit, hsplit, Token.read_stop hx, ← Token.read_stop hx c _ back', ← hsplit,
      ← hsplit, ← hsplit] at hread
    rw [hsplit, hsplit, opened?_stop hx, ← opened?_stop hx before token _ back', ← hsplit,
      ← hsplit] at hopened
    rw [hsplit] at hscan
    have hscan' := Quote.scan_stop hblank hscan (by simp) back'
    rw [← hsplit] at hscan'
    have hstep := @Resumes.quoted pending before c text head body _ token quote hread hopened hscan'
    simpa [withRest] using hstep
  | @heredoc pending before c text body rest name delimiter hread hname =>
    obtain rfl : rest = front ++ x :: back := hrest
    rw [hsplit, hsplit, Token.read_stop hx, ← Token.read_stop hx c _ back', ← hsplit,
      ← hsplit] at hread
    have hname' := terminator?_append hname (Nat.le_refl _) (front ++ x :: back')
    have hstep := @Resumes.heredoc pending before c text body _ name delimiter hread hname'
    simpa [withRest] using hstep

/-- A run that comes to a mark can be made whatever stands behind the mark. -/
theorem Runs.replace (hx : IsMark x) (h : Runs r pieces final) (hfinal : final.rest = x :: back)
    (back' : Line) :
    Runs (r.withRest (Piece.join pieces ++ x :: back')) pieces (final.withRest (x :: back')) := by
  induction h with
  | here => exact .here
  | @passes r next final text pieces hstep hruns ih =>
    have hrest := hruns.rest_eq
    rw [hfinal] at hrest
    have hstep' := hstep.replace hx hrest back'
    rw [Piece.join_cons, List.append_assoc]
    exact .passes hstep' (ih hfinal)
  | @resumes r next final piece pieces hstep hruns ih =>
    have hrest := hruns.rest_eq
    rw [hfinal] at hrest
    have hstep' := hstep.replace hx hrest back'
    rw [Piece.join_cons, List.append_assoc]
    exact .resumes hstep' (ih hfinal)

/-! ## Runs and spans -/

/-- The reading stands at a piece that it takes as a whole: a construct that
closes, or something that goes on to the end of the line. -/
def Takes (r : Reading) (piece : Piece) : Prop :=
  (∃ next, r.Resumes piece next) ∨ ∃ state, r.Ends [piece] state

/-- Code in front is no span but code, and moves the others on. -/
theorem mem_spansFrom_of_consCode {offset : Nat} {span : Span}
    (h : span ∈ Piece.spansFrom offset (Piece.consCode text pieces)) (hcode : span.cls ≠ .code) :
    span ∈ Piece.spansFrom (offset + byteLen text) pieces := by
  rw [Piece.consCode.eq_def] at h
  split at h
  · next more pieces =>
    -- the code in front is joined with the code that follows
    rw [Piece.spansFrom] at h ⊢
    rcases List.mem_cons.1 h with rfl | hlater
    · exact absurd rfl hcode
    · rw [byteLen_append, ← Nat.add_assoc] at hlater
      exact List.mem_cons_of_mem _ hlater
  · rw [Piece.spansFrom] at h
    rcases List.mem_cons.1 h with rfl | hlater
    · exact absurd rfl hcode
    · exact hlater

/-- A run comes to every span that is not code. -/
theorem exists_runs_of_mem_spansFrom {offset : Nat} {span : Span}
    (h : span ∈ Piece.spansFrom offset r.outcome.1) (hcode : span.cls ≠ .code) :
    ∃ pieces final piece, Runs r pieces final ∧ final.Takes piece ∧ piece.cls = span.cls ∧
      span.start = offset + byteLen (Piece.join pieces) ∧
      span.stop = span.start + byteLen piece.text := by
  unfold outcome at h
  induction r using Reading.induction generalizing offset with
  | @passes r text next hstep ih =>
    rw [hstep.classifyCode] at h
    rcases ih (mem_spansFrom_of_consCode h hcode) with
      ⟨pieces, final, piece, hruns, htakes, hcls, hstart, hstop⟩
    refine ⟨_, final, piece, .passes hstep hruns, htakes, hcls, ?_, hstop⟩
    rw [hstart, Piece.join_cons, byteLen_append, Nat.add_assoc]
  | @resumes r piece next hstep ih =>
    rw [hstep.classifyCode, Piece.spansFrom] at h
    rcases List.mem_cons.1 h with rfl | hlater
    · exact ⟨[], r, piece, .here, Or.inl ⟨next, hstep⟩, rfl, rfl, rfl⟩
    · rcases ih hlater with ⟨pieces, final, piece', hruns, htakes, hcls, hstart, hstop⟩
      refine ⟨_, final, piece', .resumes hstep hruns, htakes, hcls, ?_, hstop⟩
      rw [hstart, Piece.join_cons, byteLen_append, Nat.add_assoc]
  | @ends r pieces state hstep =>
    rw [hstep.classifyCode] at h
    -- the end of a line is one piece at most
    obtain ⟨piece, rfl⟩ : ∃ piece, pieces = [piece] := by
      cases hstep with
      | line => cases h
      | unclosed hread hopened hscan => exact ⟨_, rfl⟩
      | comment hread hopened => exact ⟨_, rfl⟩
      | heredoc hread hname => exact ⟨_, rfl⟩
    rcases List.mem_singleton.1 h with rfl
    exact ⟨[], r, piece, .here, Or.inr ⟨state, hstep⟩, rfl, rfl, rfl⟩

end Reading

end RakuAtlas.Lexical
