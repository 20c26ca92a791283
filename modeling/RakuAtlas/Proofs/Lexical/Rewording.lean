import RakuAtlas.Declaration.Parse
import RakuAtlas.Proofs.Lexical.Carried
import RakuAtlas.Proofs.Lexical.Runs

/-!
# RakuAtlas.Proofs.Lexical.Rewording — what is quoted does not declare

The text of a comment and the text between two double quotes may be put in other
words: the skeleton of the line stays the same, and so does the state that the
line leaves. So all declarations of the text stay, with their lines, scopes and
blocks (`parse_reword`).

Both lines are read by the same steps up to the mark with which the comment or
the string begins (`Runs.replace`), and from there on they leave the same
(`leaves_comment`, `leaves_string`). What a line leaves is all that the lines
after it see of it (`skeletonsFrom_congr`).

A string that is left open at the end of its line is another matter: if its last
quote was escaped, other words may close it, and then the next lines are code
(`not_parse_reword_open`).
-/

namespace RakuAtlas.Lexical

open Text (Line byteLen byteLen_append eq_nil_of_byteLen front_eq_of_byteLen trim trimStart)
open Unicode (isBlank)

/-! ## What a line leaves -/

/-- What is left of pieces of which none goes on with an earlier literal. -/
def blanked (pieces : List Piece) : Line := pieces.flatMap (Piece.skeleton false)

@[simp] theorem blanked_nil : blanked [] = [] := rfl

@[simp] theorem blanked_cons (piece : Piece) (pieces : List Piece) :
    blanked (piece :: pieces) = piece.skeleton false ++ blanked pieces := rfl

@[simp] theorem blanked_consCode (text : Line) (pieces : List Piece) :
    blanked (Piece.consCode text pieces) = text ++ blanked pieces := by
  rw [Piece.consCode.eq_def]
  split
  · simp [Piece.skeleton]
  · simp [Piece.skeleton]

/-- What is left of pieces, with the state behind them. -/
def leaves (result : List Piece × LineState) : Line × LineState := (blanked result.1, result.2)

/-- A run leaves what it takes and then what the reading behind it leaves. -/
theorem Reading.Runs.leaves_eq {r final : Reading} {pieces : List Piece} (h : r.Runs pieces final) :
    leaves r.outcome =
      (blanked pieces ++ (leaves final.outcome).1, (leaves final.outcome).2) := by
  induction h with
  | here => rfl
  | @passes r next final text pieces hstep hruns ih =>
    have houtcome : r.outcome = (Piece.consCode text next.outcome.1, next.outcome.2) :=
      hstep.classifyCode
    rcases Prod.mk.inj ih with ⟨hblanked, hstate⟩
    rw [houtcome, leaves, blanked_consCode, hblanked, hstate, blanked_cons, List.append_assoc]
    rfl
  | @resumes r next final piece pieces hstep hruns ih =>
    have houtcome : r.outcome = (piece :: next.outcome.1, next.outcome.2) := hstep.classifyCode
    rcases Prod.mk.inj ih with ⟨hblanked, hstate⟩
    rw [houtcome, leaves, blanked_cons, hblanked, hstate, blanked_cons, List.append_assoc]

/-! ## Up to the mark -/

/-- A line is no directive exactly if it does not start with an equals sign and a
letter. -/
theorem podDirective?_eq_none_iff (line : Line) :
    podDirective? line = none ↔
      ∀ rest, trimStart line = '=' :: rest → rest.head?.any Char.isAlpha = false := by
  unfold podDirective?
  constructor
  · intro h rest hrest
    rw [hrest] at h
    simp only at h
    split at h
    · -- every directive starts something
      split at h
      · split at h
        · cases h
        · split at h
          · cases h
          · split at h
            · cases h
            · cases h
      · cases h
    · next halpha => simpa using halpha
  · intro h
    split
    · next rest hrest =>
      rw [if_neg (by simp [h rest hrest])]
    · rfl

/-- Whether a line is a directive shows in front of a mark. -/
theorem podDirective?_stop {x : Char} (hx : IsMark x) {front back : Line}
    (h : podDirective? (front ++ x :: back) = none) (back' : Line) :
    podDirective? (front ++ x :: back') = none := by
  have hblank : isBlank x = false := by rcases hx with rfl | rfl <;> decide
  have hequals : x ≠ '=' := by rcases hx with rfl | rfl <;> decide
  rw [podDirective?_eq_none_iff] at h ⊢
  intro rest hrest
  rw [trimStart, dropWhile_stop hblank] at hrest
  cases hfront : front.dropWhile isBlank with
  | nil =>
    rw [hfront] at hrest
    exact absurd (List.cons.inj hrest).1 hequals
  | cons c more =>
    rw [hfront, List.cons_append] at hrest
    rcases List.cons.inj hrest with ⟨rfl, rfl⟩
    rw [head?_stop, ← head?_stop x more back]
    apply h
    rw [trimStart, dropWhile_stop hblank, hfront, List.cons_append]

/-- Where a span starts at a mark, the line is code that is read up to the mark. -/
theorem exists_runs_of_span {state : LineState} (hcode : state.isCode) {x : Char} (hx : IsMark x)
    {front back : Line} {span : Span}
    (h : span ∈ Piece.spans (classify state (front ++ x :: back)).1)
    (hstart : span.start = byteLen front) (hcls : span.cls ≠ .code) :
    podDirective? (front ++ x :: back) = none ∧
      ∃ pieces final piece, Reading.Runs ⟨state.pending, .start, front ++ x :: back⟩ pieces final ∧
        Piece.join pieces = front ∧ final.rest = x :: back ∧ final.Takes piece ∧
        piece.cls = span.cls ∧ span.stop = span.start + byteLen piece.text := by
  have hmode : state.mode = .code := eq_of_beq hcode
  cases hdirective : podDirective? (front ++ x :: back) with
  | some mode =>
    -- a directive is one span from the start of the line, and starts with no mark
    simp only [classify, hmode, hdirective, Piece.whole] at h
    rw [if_neg (by simp)] at h
    rcases List.mem_singleton.1 h with rfl
    obtain rfl : front = [] := eq_nil_of_byteLen hstart.symm
    have hnone : podDirective? ([] ++ x :: back) = none := by
      rw [podDirective?_eq_none_iff]
      intro rest hrest
      rcases hx with rfl | rfl
      · cases hrest
      · cases hrest
    rw [hnone] at hdirective
    cases hdirective
  | none =>
    refine ⟨rfl, ?_⟩
    simp only [classify, hmode, hdirective] at h
    rcases Reading.exists_runs_of_mem_spansFrom (r := ⟨state.pending, .start, _⟩) h hcls with
      ⟨pieces, final, piece, hruns, htakes, hpiece, hspan, hstop⟩
    rw [Nat.zero_add, hstart] at hspan
    rcases front_eq_of_byteLen hruns.rest_eq hspan with ⟨hfront, hrest⟩
    exact ⟨pieces, final, piece, hruns, hfront.symm, hrest.symm, htakes, hpiece, hstop⟩

/-! ## Comments -/

/-- Whether the text behind a hash opens a comment in brackets: with one of three
marks and then an opening bracket. -/
def startsBracketed : Line → Bool
  | mark :: bracket :: _ => ['`', '|', '='].contains mark && (closing? bracket).isSome
  | _ => false

theorem bracketComment?_eq_none {text : Line} (h : ¬startsBracketed text) :
    bracketComment? text = none := by
  unfold bracketComment?
  split
  · next mark bracket rest =>
    rw [if_neg]
    simpa [startsBracketed, or_assoc] using h
  · rfl

/-- A comment to the end of the line leaves nothing. -/
theorem leaves_comment (r : Reading) {text : Line} (h : ¬startsBracketed text) :
    leaves (r.withRest ('#' :: text)).outcome = ([], .afterCode r.pending) := by
  have hopened : opened? r.before .hash text = none := by
    simp [opened?, bracketComment?_eq_none h]
  have hends := @Reading.Ends.comment r.pending r.before '#' [] text rfl hopened
  have houtcome : (r.withRest ('#' :: text)).outcome =
      ([⟨.comment, '#' :: text⟩], .afterCode r.pending) := hends.classifyCode
  rw [houtcome]
  rfl

/-! ## Strings -/

/-- A double quote opens a string. -/
theorem read_doubleQuote (cs : Line) :
    Token.read '"' cs = (.opening (Quote.opened .string '"'), 0) := rfl

/-- A string without quotes and backslashes closes at the next quote. -/
theorem scan_string {text : Line} (hquote : '"' ∉ text) (hslash : '\\' ∉ text) (rest : Line) :
    (Quote.opened .string '"').scan .body (text ++ '"' :: rest) = .closed (text.length + 1) := by
  induction text with
  | nil => rfl
  | cons c more ih =>
    rw [List.mem_cons, not_or] at hquote hslash
    have hstep : (Quote.opened .string '"').scan .body (c :: (more ++ '"' :: rest)) =
        ((Quote.opened .string '"').scan .body (more ++ '"' :: rest)).succ := by
      rw [Quote.scan]
      simp [Quote.opened, closing?, Ne.symm hquote.1, Ne.symm hslash.1]
    rw [List.cons_append, hstep, ih hquote.2 hslash.2]
    rfl

/-- The string in double quotes with this text. -/
def quotedPiece (text : Line) : Piece := ⟨.string, '"' :: (text ++ ['"'])⟩

/-- The reading goes on behind a string that closes. -/
theorem resumes_string (r : Reading) {text rest : Line}
    (h : (Quote.opened .string '"').scan .body (text ++ '"' :: rest) = .closed (text.length + 1)) :
    (r.withRest ('"' :: (text ++ '"' :: rest))).Resumes (quotedPiece text)
      ⟨r.pending, .term, rest⟩ := by
  have hbody : text ++ '"' :: rest = (text ++ ['"']) ++ rest := by simp
  have hcount : text.length + 1 = (text ++ ['"']).length := by simp
  rw [hbody, hcount] at h
  rw [hbody]
  exact @Reading.Resumes.quoted r.pending r.before '"' [] [] (text ++ ['"']) rest _ _
    (read_doubleQuote _) rfl h

/-- A construct that is taken as a whole is the first piece. -/
theorem Reading.Takes.head? {r : Reading} {piece : Piece} (h : r.Takes piece) :
    r.outcome.1.head? = some piece := by
  rcases h with ⟨next, hstep⟩ | ⟨state, hstep⟩
  · have houtcome : r.outcome = (piece :: next.outcome.1, next.outcome.2) := hstep.classifyCode
    rw [houtcome]
    rfl
  · have houtcome : r.outcome = ([piece], state) := hstep.classifyCode
    rw [houtcome]
    rfl

/-- A string that takes as much as its text and two quotes is closed by the
second of them, unless the line leaves it open. -/
theorem scan_of_takes {pending : List Line} {before : Before} {text rest : Line} {piece : Piece}
    (h : Reading.Takes ⟨pending, before, '"' :: (text ++ '"' :: rest)⟩ piece)
    (hlen : byteLen piece.text = byteLen (quotedPiece text).text)
    (hclosed : rest = [] → ∀ quote,
      (Reading.outcome ⟨pending, before, '"' :: (text ++ '"' :: rest)⟩).2.mode ≠ .quoted quote) :
    (Quote.opened .string '"').scan .body (text ++ '"' :: rest) = .closed (text.length + 1) := by
  have hwhole : '"' :: (text ++ '"' :: rest) = (quotedPiece text).text ++ rest := by
    simp [quotedPiece]
  have hhead := h.head?
  cases hscan : (Quote.opened .string '"').scan .body (text ++ '"' :: rest) with
  | closed count =>
    -- what the scan takes is as long as the string, and so is the string
    rcases Reading.exists_append_of_le (Quote.scan_closed hscan).2 with ⟨body, back, hbody, rfl⟩
    rw [hbody] at hscan hhead
    have hstep := @Reading.Resumes.quoted pending before '"' [] [] body back _ _
      (read_doubleQuote _) rfl hscan
    have houtcome : Reading.outcome ⟨pending, before, '"' :: (body ++ back)⟩ = _ :=
      hstep.classifyCode
    rw [houtcome, List.head?_cons] at hhead
    rcases Option.some.inj hhead with rfl
    have hsplit : ('"' :: body) ++ back = (quotedPiece text).text ++ rest := by
      rw [← hwhole, hbody, List.cons_append]
    rcases front_eq_of_byteLen hsplit hlen with ⟨hfront, -⟩
    rw [(List.cons.inj hfront).2, List.length_append]
    rfl
  | unclosed quote =>
    have hstep := @Reading.Ends.unclosed pending before '"' [] [] _ _ _ quote
      (read_doubleQuote _) rfl hscan
    have houtcome : Reading.outcome ⟨pending, before, '"' :: (text ++ '"' :: rest)⟩ = _ :=
      hstep.classifyCode
    rw [houtcome, List.head?_cons] at hhead
    rcases Option.some.inj hhead with rfl
    -- the open string is the rest of the line, so nothing stands behind it
    have hrest : byteLen rest = 0 := by
      have hsum := congrArg byteLen hwhole
      rw [byteLen_append] at hsum
      simp only [List.nil_append] at hlen
      omega
    rw [houtcome] at hclosed
    exact absurd rfl (hclosed (eq_nil_of_byteLen hrest) quote)

/-- Two strings that close leave the same in front of the same rest. -/
theorem leaves_string (r : Reading) {text text' rest : Line}
    (h : (Quote.opened .string '"').scan .body (text ++ '"' :: rest) = .closed (text.length + 1))
    (h' : (Quote.opened .string '"').scan .body (text' ++ '"' :: rest) =
      .closed (text'.length + 1)) :
    leaves (r.withRest ('"' :: (text ++ '"' :: rest))).outcome =
      leaves (r.withRest ('"' :: (text' ++ '"' :: rest))).outcome := by
  have hruns := Reading.Runs.resumes (resumes_string r h) .here
  have hruns' := Reading.Runs.resumes (resumes_string r h') .here
  rw [hruns.leaves_eq, hruns'.leaves_eq]
  rfl

/-! ## Lines in other words -/

theorem classify_of_isCode {state : LineState} (hcode : state.isCode) {line : Line}
    (h : podDirective? line = none) :
    classify state line = Reading.outcome ⟨state.pending, .start, line⟩ := by
  have hmode : state.mode = .code := eq_of_beq hcode
  simp only [classify, hmode, h]
  rfl

/-- Two lines that are read alike up to a mark leave the same if they do so from
there on. -/
theorem leaves_classify {state : LineState} (hcode : state.isCode) {x : Char} (hx : IsMark x)
    {front back back' : Line} (hdirective : podDirective? (front ++ x :: back) = none)
    {pieces : List Piece} {final : Reading}
    (hruns : Reading.Runs ⟨state.pending, .start, front ++ x :: back⟩ pieces final)
    (hjoin : Piece.join pieces = front) (hfinal : final.rest = x :: back)
    (h : leaves final.outcome = leaves (final.withRest (x :: back')).outcome) :
    leaves (classify state (front ++ x :: back)) =
      leaves (classify state (front ++ x :: back')) := by
  have hruns' := hruns.replace hx hfinal back'
  rw [hjoin] at hruns'
  rw [classify_of_isCode hcode hdirective,
    classify_of_isCode hcode (podDirective?_stop hx hdirective back'), hruns.leaves_eq, h]
  exact hruns'.leaves_eq.symm

/-- The ways to put a line in other words, given the state at its start. -/
inductive Rewords (state : LineState) : Line → Line → Prop where
  /-- Another text behind the hash of a comment; neither opens a bracket. -/
  | comment {front text text' : Line} {span : Span}
      (hspan : span ∈ Piece.spans (classify state (front ++ '#' :: text)).1)
      (hstart : span.start = byteLen front) (hcls : span.cls = .comment)
      (htext : ¬startsBracketed text) (htext' : ¬startsBracketed text') :
      Rewords state (front ++ '#' :: text) (front ++ '#' :: text')
  /-- Another text between the quotes of a string, which the second quote closes:
  if the line ends with it, the next line does not start in a string. -/
  | string {front text text' rest : Line} {span : Span}
      (hspan : span ∈ Piece.spans (classify state (front ++ '"' :: (text ++ '"' :: rest))).1)
      (hstart : span.start = byteLen front)
      (hstop : span.stop = byteLen (front ++ '"' :: (text ++ ['"']))) (hcls : span.cls = .string)
      (hclosed : rest = [] → ∀ quote,
        (classify state (front ++ '"' :: (text ++ '"' :: rest))).2.mode ≠ .quoted quote)
      (hquote : '"' ∉ text') (hslash : '\\' ∉ text') :
      Rewords state (front ++ '"' :: (text ++ '"' :: rest)) (front ++ '"' :: (text' ++ '"' :: rest))

/-- A line in other words leaves the same. -/
theorem Rewords.leaves_eq {state : LineState} {line line' : Line} (h : Rewords state line line')
    (hcode : state.isCode) : leaves (classify state line) = leaves (classify state line') := by
  cases h with
  | @comment front text text' span hspan hstart hcls htext htext' =>
    have hx : IsMark '#' := Or.inr rfl
    rcases exists_runs_of_span hcode hx hspan hstart (by rw [hcls]; nofun) with
      ⟨hdirective, pieces, final, piece, hruns, hjoin, hfinal, -, -, -⟩
    apply leaves_classify hcode hx hdirective hruns hjoin hfinal
    have hsame : final = final.withRest ('#' :: text) := by rw [← hfinal]; rfl
    rw [leaves_comment final htext', hsame]
    exact leaves_comment final htext
  | @string front text text' rest span hspan hstart hstop hcls hclosed hquote hslash =>
    have hx : IsMark '"' := Or.inl rfl
    rcases exists_runs_of_span hcode hx hspan hstart (by rw [hcls]; nofun) with
      ⟨hdirective, pieces, ⟨pending, before, cs⟩, piece, hruns, hjoin, rfl, htakes, -, hspanStop⟩
    apply leaves_classify hcode hx hdirective hruns hjoin rfl
    -- the state behind the line is the one behind the string
    rw [classify_of_isCode hcode hdirective] at hclosed
    have hstate := (Prod.mk.inj hruns.leaves_eq).2
    rw [hstate] at hclosed
    have hlen : byteLen piece.text = byteLen (quotedPiece text).text := by
      rw [byteLen_append] at hstop
      change byteLen piece.text = byteLen ('"' :: (text ++ ['"']))
      omega
    exact leaves_string ⟨pending, before, []⟩ (scan_of_takes htakes hlen hclosed)
      (scan_string hquote hslash rest)

/-! ## Texts in other words -/

/-- The skeletons of lines, from a state on. -/
def skeletonsFrom (state : LineState) : List Line → List Line
  | [] => []
  | line :: more =>
    skeletonLine state (classify state line).1 :: skeletonsFrom (classify state line).2 more

theorem skeletonsFrom_append (state : LineState) (above below : List Line) :
    skeletonsFrom state (above ++ below) =
      skeletonsFrom state above ++ skeletonsFrom (stateFrom state above) below := by
  induction above generalizing state with
  | nil => rfl
  | cons line more ih =>
    rw [List.cons_append, skeletonsFrom, ih]
    rfl

theorem exists_runFrom_raku (state : LineState) (lines : List Line) :
    ∃ cut, Classifier.raku.runFrom state lines = .ok cut ∧
      cut.map (fun (state, pieces) => skeletonLine state pieces) = skeletonsFrom state lines := by
  induction lines generalizing state with
  | nil => exact ⟨[], rfl, rfl⟩
  | cons line more ih =>
    rcases ih (classify state line).2 with ⟨cut, hcut, hskeletons⟩
    refine ⟨(state, (classify state line).1) :: cut, ?_, ?_⟩
    · have hstep : Classifier.raku.runFrom state (line :: more) =
          (Classifier.raku.runFrom (classify state line).2 more).map
            ((state, (classify state line).1) :: ·) := rfl
      rw [hstep, hcut]
      rfl
    · rw [List.map_cons, hskeletons, skeletonsFrom]

/-- These are the skeletons that the classifier of this library gives. -/
theorem skeleton_raku (lines : List Line) :
    Classifier.raku.skeleton lines = .ok (skeletonsFrom .initial lines) := by
  rcases exists_runFrom_raku .initial lines with ⟨cut, hcut, hskeletons⟩
  rw [Classifier.skeleton, Classifier.run, hcut, ← hskeletons]
  rfl

/-- The skeleton of a line of code is what its pieces leave. -/
theorem skeletonLine_of_isCode {state : LineState} (hcode : state.isCode) (pieces : List Piece) :
    skeletonLine state pieces = trim (blanked pieces) := by
  have hmode : state.mode = .code := eq_of_beq hcode
  cases pieces with
  | nil => rfl
  | cons piece pieces => simp [skeletonLine, LineState.inLiteral, hmode, blanked]

/-- Lines after a line see no more of it than what it leaves. -/
theorem skeletonsFrom_congr {state : LineState} (hcode : state.isCode) {line line' : Line}
    (h : leaves (classify state line) = leaves (classify state line')) (below : List Line) :
    skeletonsFrom state (line :: below) = skeletonsFrom state (line' :: below) := by
  rcases Prod.mk.inj h with ⟨hblanked, hstate⟩
  rw [skeletonsFrom, skeletonsFrom, skeletonLine_of_isCode hcode, skeletonLine_of_isCode hcode,
    hblanked, hstate]

end RakuAtlas.Lexical

namespace RakuAtlas.Declaration

open Lexical
open Text (Line byteLen)

/-- The lines that are read are skeletons, but for the mode that reads them as
they are. -/
theorem prepare_raku {mode : ParseMode} (hmode : mode ≠ .refinement) (lines : List Line) :
    prepare mode (some .raku) lines = skeletonsFrom .initial lines := by
  have hblanks : mode.blanksLiterals = true := bne_iff_ne.2 hmode
  simp only [prepare, hblanks, if_true, skeleton_raku]

/-- A text declares the same when a line of code is put in other words. -/
theorem parse_reword {mode : ParseMode} (hmode : mode ≠ .refinement) {above below : List Line}
    {line line' : Line} (hcode : (stateAfter above).isCode)
    (hline : Rewords (stateAfter above) line line') :
    parse mode (some .raku) (above ++ line :: below) =
      parse mode (some .raku) (above ++ line' :: below) := by
  have hskeletons := skeletonsFrom_congr hcode (hline.leaves_eq hcode) below
  rw [parse, parse, prepare_raku hmode, prepare_raku hmode, skeletonsFrom_append,
    skeletonsFrom_append, ← stateAfter, hskeletons]

/-- A brace in a comment, and one in a string, may come and go. -/
theorem parse_reword_braces :
    parse .navigation (some .raku) (["class A \x7b".toList] ++
        ("sub f \x7b ".toList ++ '#' :: " \x7d".toList) :: ["\x7d".toList, "\x7d".toList]) =
      parse .navigation (some .raku) (["class A \x7b".toList] ++
        ("sub f \x7b ".toList ++ '#' :: " \x7b\x7b".toList) :: ["\x7d".toList, "\x7d".toList]) ∧
    parse .outline (some .raku) (["class A \x7b".toList] ++
        ("sub f \x7b ".toList ++ '"' :: ("\\\"\x7d".toList ++ '"' :: " \x7d".toList)) ::
        ["\x7d".toList]) =
      parse .outline (some .raku) (["class A \x7b".toList] ++
        ("sub f \x7b ".toList ++ '"' :: ("é\x7b #".toList ++ '"' :: " \x7d".toList)) ::
        ["\x7d".toList]) := by
  constructor
  · apply parse_reword
    · decide
    · decide +kernel
    · exact @Rewords.comment _ _ _ _ ⟨8, 11, .comment⟩ (by decide +kernel) (by decide) (by decide)
        (by decide) (by decide)
  · apply parse_reword
    · decide
    · decide +kernel
    · exact @Rewords.string _ _ _ _ _ ⟨8, 13, .string⟩ (by decide +kernel) (by decide) (by decide)
        (by decide) nofun (by decide) (by decide)

/-- Other words may close a string that the line would leave open. -/
theorem not_parse_reword_open :
    ¬∀ (mode : ParseMode) (above below : List Line) (front text text' rest : Line),
      mode ≠ .refinement → (stateAfter above).isCode →
      ⟨byteLen front, byteLen (front ++ '"' :: (text ++ ['"'])), .string⟩ ∈
        Piece.spans (classify (stateAfter above) (front ++ '"' :: (text ++ '"' :: rest))).1 →
      '"' ∉ text' → '\\' ∉ text' → '\n' ∉ text' →
      parse mode (some .raku) (above ++ (front ++ '"' :: (text ++ '"' :: rest)) :: below) =
        parse mode (some .raku) (above ++ (front ++ '"' :: (text' ++ '"' :: rest)) :: below) := by
  intro h
  have hparse := h .outline [] ["sub f \x7b \x7d".toList] "my $s = ".toList "a\\".toList
    "a".toList [] (by decide) (by decide +kernel) (by decide +kernel) (by decide) (by decide) (by decide)
  -- the next line is the rest of the string in one text and declares in the other
  exact absurd hparse (by decide +kernel)

end RakuAtlas.Declaration
