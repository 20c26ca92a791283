import RakuAtlas.Proofs.WellFormed
import RakuAtlas.Query.Folding

/-!
# RakuAtlas.Proofs.Query.Folding — what can be folded, exactly

The folds of a text are the blocks of its declarations and its comments. A line declares one thing
at most, so that no two blocks start on one line, and a run of comment lines is found once, when it
is over. So there are no two equal folds that sorting could leave apart from each other.

* `IsRun`: a maximal run of two or more numbers with a property. Two of them do not touch
  (`IsRun.apart`).
* `mem_commentRuns`: the scan over the lines finds the runs that are not over yet, by induction over
  the lines that are left, with the run that the scan is in as its state (`InRun`).
* `folds_exact`: all of it for the folds of a text, in order.
-/

namespace RakuAtlas.Query

open Lexical (Classifier Piece)
open Text (lines trim)
open Unicode (isBlank)

/-! ## Comment lines -/

/-- A piece of a line has something in it that is not white space. -/
def IsVisible (p : Piece) : Prop := ∃ c ∈ p.text, ¬isBlank c

/-- A line has visible pieces, and all of them are comments. -/
def IsCommentLine (pieces : List Piece) : Prop :=
  (∃ p ∈ pieces, IsVisible p) ∧ ∀ p ∈ pieces, IsVisible p → p.cls = .comment

theorem trim_eq_nil_iff {cs : List Char} : trim cs = [] ↔ ∀ c ∈ cs, isBlank c := by
  rw [trim, Text.trimEnd, Text.dropEndWhile, List.reverse_eq_nil_iff, List.dropWhile_eq_nil_iff]
  simp only [List.mem_reverse]
  constructor
  · intro h c hc
    rw [← List.takeWhile_append_dropWhile (p := isBlank) (l := cs)] at hc
    obtain hfront | hback := List.mem_append.1 hc
    · exact List.mem_takeWhile_imp hfront
    · exact h c hback
  · intro h c hc
    exact h c ((List.dropWhile_sublist _).subset hc)

theorem isVisible_iff (p : Piece) : IsVisible p ↔ (!(trim p.text).isEmpty) = true := by
  rw [Bool.not_eq_true', List.isEmpty_eq_false_iff, Ne, trim_eq_nil_iff, IsVisible]
  push Not
  rfl

theorem isCommentLine_iff (pieces : List Piece) :
    isCommentLine pieces = true ↔ IsCommentLine pieces := by
  have hsome : (pieces.filter fun p => !(trim p.text).isEmpty) ≠ [] ↔
      ∃ p ∈ pieces, IsVisible p := by
    rw [Ne, List.filter_eq_nil_iff]
    push Not
    simp only [isVisible_iff]
  rw [isCommentLine, Bool.and_eq_true, Bool.not_eq_true', List.isEmpty_eq_false_iff, hsome,
    List.all_eq_true]
  simp only [IsCommentLine, isVisible_iff, List.mem_filter, beq_iff_eq, and_imp]

/-! ## Runs -/

/-- The numbers from `start` to `stop` are at least two, all are marked, and neither the one before
nor the one behind is. -/
structure IsRun (marked : Nat → Prop) (start stop : Nat) : Prop where
  start_lt_stop : start < stop
  marked_of_mem : ∀ n, start ≤ n → n ≤ stop → marked n
  not_before : ∀ n, n + 1 = start → ¬marked n
  not_behind : ¬marked (stop + 1)

section
variable {marked : Nat → Prop} {line : Nat} {start : Option Nat} {flags : List Bool}

theorem IsRun.marked_stop {a b : Nat} (h : IsRun marked a b) : marked b :=
  h.marked_of_mem b (Nat.le_of_lt h.start_lt_stop) (Nat.le_refl b)

/-- Of two runs the later starts behind a number that is not marked. -/
theorem IsRun.apart {a b a' b' : Nat} (h : IsRun marked a b) (h' : IsRun marked a' b')
    (hle : a ≤ a') (hne : (a, b) ≠ (a', b')) : b + 1 < a' := by
  have hlt := h.start_lt_stop
  have hlt' := h'.start_lt_stop
  by_contra hnot
  obtain rfl | hstart := Nat.eq_or_lt_of_le hle
  · -- with one start the longer run would have the number behind the shorter
    obtain hstop | rfl | hstop := Nat.lt_trichotomy b b'
    · exact h.not_behind (h'.marked_of_mem _ (by omega) (by omega))
    · exact hne rfl
    · exact h'.not_behind (h.marked_of_mem _ (by omega) (by omega))
  · exact h'.not_before (a' - 1) (by omega) (h.marked_of_mem _ (by omega) (by omega))

/-- The state of a scan before a line: the start of the run it is in, if it is in one. -/
def InRun (marked : Nat → Prop) (line : Nat) : Option Nat → Prop
  | none => ∀ n, n + 1 = line → ¬marked n
  | some a => a < line ∧ (∀ n, a ≤ n → n < line → marked n) ∧ ∀ n, n + 1 = a → ¬marked n

theorem inRun_zero : InRun marked 0 none := fun n hn => absurd hn (Nat.succ_ne_zero n)

theorem InRun.of_marked (h : InRun marked line start) (hline : marked line) :
    InRun marked (line + 1) (some (start.getD line)) := by
  cases start with
  | none =>
    refine ⟨Nat.lt_succ_self _, fun n hn hlt => ?_, h⟩
    obtain rfl : n = line := Nat.le_antisymm (Nat.le_of_lt_succ hlt) hn
    exact hline
  | some a =>
    obtain ⟨hlt, hmarked, hbefore⟩ := h
    refine ⟨Nat.lt_succ_of_lt hlt, fun n hn hle => ?_, hbefore⟩
    obtain hless | rfl := Nat.lt_or_eq_of_le (Nat.le_of_lt_succ hle)
    · exact hmarked n hn hless
    · exact hline

theorem inRun_of_not_marked (hline : ¬marked line) : InRun marked (line + 1) none := by
  intro n hn
  obtain rfl : n = line := Nat.succ.inj hn
  exact hline

/-- At a line that is not marked the run is over. -/
theorem mem_commentFold (hstate : InRun marked line start) (hline : ¬marked line) {f : Fold} :
    f ∈ (start.map (commentFold · line)).getD [] ↔
      f.isComment ∧ IsRun marked f.start f.stop ∧ f.stop + 1 = line := by
  cases start with
  | none =>
    simp only [Option.map_none, Option.getD_none, List.not_mem_nil, false_iff]
    rintro ⟨-, hrun, hstop⟩
    exact hstate f.stop hstop hrun.marked_stop
  | some a =>
    obtain ⟨hlt, hmarked, hbefore⟩ := hstate
    simp only [Option.map_some, Option.getD_some, commentFold]
    constructor
    · intro hf
      split at hf
      · obtain rfl := List.mem_singleton.1 hf
        have hback : line - 1 + 1 = line := by omega
        exact ⟨rfl, ⟨by simp only; omega, fun n hn hle => hmarked n hn (by simp only at hle; omega),
          hbefore, by simpa only [hback] using hline⟩, hback⟩
      · cases hf
    · rintro ⟨hcomment, hrun, hstop⟩
      have hseveral := hrun.start_lt_stop
      have hstart : f.start = a := by
        obtain hless | heq | hmore := Nat.lt_trichotomy f.start a
        · exact absurd (hrun.marked_of_mem (a - 1) (by omega) (by omega))
            (hbefore (a - 1) (by omega))
        · exact heq
        · exact absurd (hmarked (f.start - 1) (by omega) (by omega))
            (hrun.not_before (f.start - 1) (by omega))
      rw [if_pos (by omega), List.mem_singleton]
      obtain ⟨start, stop, isComment⟩ := f
      simp only at hcomment hstart hstop
      rw [hcomment, hstart, ← hstop]
      rfl

/-- The scan finds the runs that are not over before its line. -/
theorem mem_commentRuns (hstate : InRun marked line start)
    (hflags : ∀ n, marked (line + n) ↔ flags[n]? = some true) {f : Fold} :
    f ∈ commentRuns line start flags ↔
      f.isComment ∧ IsRun marked f.start f.stop ∧ line ≤ f.stop + 1 := by
  induction flags generalizing line start with
  | nil =>
    have hnone : ∀ n, ¬marked (line + n) := fun n => by simp [hflags]
    rw [commentRuns, mem_commentFold hstate (hnone 0)]
    refine and_congr_right fun _ => and_congr_right fun hrun => ?_
    constructor
    · exact fun hstop => Nat.le_of_eq hstop.symm
    · -- the last number of a run is marked, and no line is left
      intro hle
      by_contra hne
      have hsum : line + (f.stop - line) = f.stop := by omega
      exact hnone (f.stop - line) (hsum.symm ▸ hrun.marked_stop)
  | cons flag more ih =>
    have hmore : ∀ n, marked (line + 1 + n) ↔ more[n]? = some true := by
      intro n
      rw [Nat.add_assoc, Nat.add_comm 1, hflags, List.getElem?_cons_succ]
    have hline : marked line ↔ flag = true := by simpa using hflags 0
    cases flag with
    | true =>
      have hmarked := hline.2 rfl
      rw [commentRuns, ih (hstate.of_marked hmarked) hmore]
      refine and_congr_right fun _ => and_congr_right fun hrun => ?_
      -- a run that ends before the line would have it behind it
      have hne : f.stop + 1 ≠ line := fun heq => hrun.not_behind (heq.symm ▸ hmarked)
      omega
    | false =>
      have hnot : ¬marked line := fun hmarked => by simpa using hline.1 hmarked
      rw [commentRuns, List.mem_append, mem_commentFold hstate hnot,
        ih (inRun_of_not_marked hnot) hmore, ← and_or_left, ← and_or_left]
      refine and_congr_right fun _ => and_congr_right fun _ => ?_
      omega

theorem pairwise_commentFold (line : Nat) (start : Option Nat) :
    ((start.map (commentFold · line)).getD []).Pairwise (·.stop < ·.stop) := by
  cases start with
  | none => exact List.Pairwise.nil
  | some a =>
    simp only [Option.map_some, Option.getD_some, commentFold]
    split
    · exact List.pairwise_singleton _ _
    · exact List.Pairwise.nil

/-- The scan finds the runs one behind the other. -/
theorem pairwise_commentRuns (hstate : InRun marked line start)
    (hflags : ∀ n, marked (line + n) ↔ flags[n]? = some true) :
    (commentRuns line start flags).Pairwise (·.stop < ·.stop) := by
  induction flags generalizing line start with
  | nil => exact pairwise_commentFold line start
  | cons flag more ih =>
    have hmore : ∀ n, marked (line + 1 + n) ↔ more[n]? = some true := by
      intro n
      rw [Nat.add_assoc, Nat.add_comm 1, hflags, List.getElem?_cons_succ]
    have hline : marked line ↔ flag = true := by simpa using hflags 0
    cases flag with
    | true => exact ih (hstate.of_marked (hline.2 rfl)) hmore
    | false =>
      have hnot : ¬marked line := fun hmarked => by simpa using hline.1 hmarked
      have hnext := inRun_of_not_marked hnot
      refine List.pairwise_append.2 ⟨pairwise_commentFold line start, ih hnext hmore, ?_⟩
      intro f hf g hg
      have hover := ((mem_commentFold hstate hnot).1 hf).2.2
      have hlater := ((mem_commentRuns hnext hmore).1 hg).2.2
      omega

end

/-! ## Comments -/

/-- The lines with these numbers are comment lines. -/
def CommentAt (pieces : List (List Piece)) (n : Nat) : Prop :=
  ∃ line, pieces[n]? = some line ∧ IsCommentLine line

theorem commentAt_iff (pieces : List (List Piece)) (n : Nat) :
    CommentAt pieces (0 + n) ↔ (pieces.map isCommentLine)[n]? = some true := by
  rw [Nat.zero_add, List.getElem?_map, Option.map_eq_some_iff]
  simp only [CommentAt, isCommentLine_iff]

/-- The folds of comments of a text, if there is a classifier. -/
def commentFoldsIn (classifier : Option Classifier) (text : String) : List Fold :=
  classifier.elim [] (commentFolds · text)

section
variable {classifier : Option Classifier} {text : String}

/-- The comments of a text are its maximal runs of comment lines. -/
theorem mem_commentFoldsIn {f : Fold} :
    f ∈ commentFoldsIn classifier text ↔
      f.isComment ∧ ∃ c pieces, classifier = some c ∧ c.pieces (lines text) = .ok pieces ∧
        IsRun (CommentAt pieces) f.start f.stop := by
  cases classifier with
  | none => simp [commentFoldsIn]
  | some c =>
    simp only [commentFoldsIn, Option.elim_some, commentFolds]
    cases hpieces : c.pieces (lines text) with
    | error e => simp [hpieces]
    | ok pieces =>
      rw [mem_commentRuns inRun_zero (commentAt_iff pieces)]
      simp [hpieces]

theorem nodup_commentFoldsIn : (commentFoldsIn classifier text).Nodup := by
  cases classifier with
  | none => exact List.nodup_nil
  | some c =>
    simp only [commentFoldsIn, Option.elim_some, commentFolds]
    cases c.pieces (lines text) with
    | error e => exact List.nodup_nil
    | ok pieces =>
      refine (pairwise_commentRuns inRun_zero (commentAt_iff pieces)).imp ?_
      rintro f g hlt rfl
      exact Nat.lt_irrefl _ hlt

/-- As many lines are classified as there are. -/
theorem length_pieces {c : Classifier} {pieces : List (List Piece)} {cut : List Text.Line}
    (h : c.pieces cut = .ok pieces) : pieces.length = cut.length := by
  unfold Classifier.pieces Classifier.run at h
  cases hrun : c.runFrom .initial cut with
  | error e =>
    rw [hrun] at h
    cases h
  | ok found =>
    rw [hrun] at h
    cases h
    rw [List.length_map, Classifier.length_of_runFrom hrun]

end

/-! ## Blocks -/

theorem mem_blockFolds {t : Table} {f : Fold} :
    f ∈ blockFolds t ↔ f.isComment = false ∧
      ∃ s ∈ t.symbols, s.line < s.stop ∧ s.line = f.start ∧ s.stop = f.stop := by
  simp only [blockFolds, List.mem_map, List.mem_filter, t.grouped_perm.mem_iff,
    Symbol.isMultiline, decide_eq_true_eq]
  constructor
  · rintro ⟨s, ⟨hs, hlt⟩, rfl⟩
    exact ⟨rfl, s, hs, hlt, rfl, rfl⟩
  · rintro ⟨hcomment, s, hs, hlt, hstart, hstop⟩
    refine ⟨s, ⟨hs, hlt⟩, ?_⟩
    rw [hstart, hstop, ← hcomment]

/-- No two blocks of a text start on one line. -/
theorem nodup_blockFolds (file : FileId) (text : String) (mode : ParseMode)
    (classifier : Option Classifier) :
    (blockFolds (Table.parse file text mode classifier)).Nodup := by
  have hfound := Table.pairwise_line_filter (p := Symbol.isMultiline)
    (by intro s _ hstop; simp [Symbol.isMultiline, hstop]) file text mode classifier
  have hperm := (Table.parse file text mode classifier).grouped_perm.filter Symbol.isMultiline
  have hlines := (hperm.pairwise_iff (R := fun a b : Symbol => a.line ≠ b.line)
    fun hab => hab.symm).2 (hfound.imp Nat.ne_of_lt)
  rw [blockFolds, List.nodup_iff_pairwise_ne, List.pairwise_map]
  exact hlines.imp fun hne heq => hne (congrArg Fold.start heq)

/-! ## In order -/

theorem dropRepeats_of_nodup {fs : List Fold} (h : fs.Nodup) : dropRepeats fs = fs := by
  fun_induction dropRepeats fs with
  | case1 => rfl
  | case2 f => rfl
  | case3 f more ih => simp at h
  | case4 f g more hne ih => rw [ih h.of_cons]

/-- One fold comes before another: by start and then by stop. -/
def Fold.AtOrBefore (f g : Fold) : Prop := f.start < g.start ∨ f.start = g.start ∧ f.stop ≤ g.stop

theorem Fold.atOrBefore_iff (f g : Fold) : f.atOrBefore g ↔ f.AtOrBefore g := by
  simp [Fold.atOrBefore, Fold.AtOrBefore]

theorem pairwise_mergeSort_folds (fs : List Fold) :
    (fs.mergeSort Fold.atOrBefore).Pairwise Fold.AtOrBefore := by
  have hsorted := @List.pairwise_mergeSort Fold Fold.atOrBefore
    (fun f g k hfg hgk => by
      simp only [Fold.atOrBefore_iff, Fold.AtOrBefore] at *
      omega)
    (fun f g => by
      simp only [Bool.or_eq_true, Fold.atOrBefore_iff, Fold.AtOrBefore]
      omega) fs
  exact hsorted.imp fun h => (Fold.atOrBefore_iff ..).1 h

section
variable (file : FileId) (text : String) (mode : ParseMode) (reader folder : Option Classifier)

/-- No two folds of a text are the same. -/
theorem nodup_blockFolds_append :
    (blockFolds (Table.parse file text mode reader) ++ commentFoldsIn folder text).Nodup := by
  refine List.nodup_append.2 ⟨nodup_blockFolds .., nodup_commentFoldsIn, ?_⟩
  rintro f hf g hg rfl
  have hcomment := (mem_commentFoldsIn.1 hg).1
  rw [(mem_blockFolds.1 hf).1] at hcomment
  cases hcomment

/-- So that none is dropped. -/
theorem folds_parse :
    folds (Table.parse file text mode reader) text folder =
      (blockFolds (Table.parse file text mode reader) ++
        commentFoldsIn folder text).mergeSort Fold.atOrBefore := by
  have hfolds : folds (Table.parse file text mode reader) text folder =
      dropRepeats ((blockFolds (Table.parse file text mode reader) ++
        commentFoldsIn folder text).mergeSort Fold.atOrBefore) := by
    cases folder <;> rfl
  rw [hfolds, dropRepeats_of_nodup
    ((List.mergeSort_perm ..).nodup_iff.2 (nodup_blockFolds_append ..))]

theorem mem_folds_parse {f : Fold} :
    f ∈ folds (Table.parse file text mode reader) text folder ↔
      f ∈ blockFolds (Table.parse file text mode reader) ∨ f ∈ commentFoldsIn folder text := by
  rw [folds_parse, List.mem_mergeSort, List.mem_append]

/-- A fold ends on a later line of the text. -/
theorem bounds_of_mem_folds {f : Fold}
    (hf : f ∈ folds (Table.parse file text mode reader) text folder) :
    f.start < f.stop ∧ f.stop < (lines text).length := by
  obtain hblock | hcomment := (mem_folds_parse file text mode reader folder).1 hf
  · obtain ⟨-, s, hs, hlt, hstart, hstop⟩ := mem_blockFolds.1 hblock
    rw [← hstart, ← hstop]
    exact ⟨hlt, (Table.wellFormed_parse file text mode reader).2.stop_lt_lineCount s hs⟩
  · obtain ⟨-, c, pieces, -, hpieces, hrun⟩ := mem_commentFoldsIn.1 hcomment
    obtain ⟨line, hline, -⟩ := hrun.marked_stop
    rw [← length_pieces hpieces]
    exact ⟨hrun.start_lt_stop, (List.getElem?_eq_some_iff.1 hline).1⟩

theorem pairwise_folds_parse :
    (folds (Table.parse file text mode reader) text folder).Pairwise fun f g =>
      f.AtOrBefore g ∧ f ≠ g := by
  rw [folds_parse]
  refine (pairwise_mergeSort_folds _).and (List.nodup_iff_pairwise_ne.1 ?_)
  exact (List.mergeSort_perm ..).nodup_iff.2 (nodup_blockFolds_append ..)

/-- Two comments do not touch. -/
theorem pairwise_comment_folds :
    ((folds (Table.parse file text mode reader) text folder).filter (·.isComment)).Pairwise
      fun f g => f.stop + 1 < g.start := by
  refine List.Pairwise.imp_of_mem ?_
    ((pairwise_folds_parse file text mode reader folder).sublist List.filter_sublist)
  rintro f g hf hg ⟨hle, hne⟩
  have hrun : ∀ h ∈ (folds (Table.parse file text mode reader) text folder).filter (·.isComment),
      h.isComment ∧ h ∈ commentFoldsIn folder text := by
    intro h hh
    obtain ⟨hmem, hcomment⟩ := List.mem_filter.1 hh
    obtain hblock | hfound := (mem_folds_parse file text mode reader folder).1 hmem
    · rw [(mem_blockFolds.1 hblock).1] at hcomment
      cases hcomment
    · exact ⟨hcomment, hfound⟩
  obtain ⟨hfcomment, c, pieces, rfl, hpieces, hfrun⟩ := mem_commentFoldsIn.1 (hrun f hf).2
  obtain ⟨hgcomment, c', pieces', hc, hpieces', hgrun⟩ := mem_commentFoldsIn.1 (hrun g hg).2
  obtain rfl := Option.some.inj hc
  obtain rfl := Except.ok.inj (hpieces.symm.trans hpieces')
  refine hfrun.apart hgrun (hle.elim Nat.le_of_lt fun h => Nat.le_of_eq h.1) fun heq => hne ?_
  obtain ⟨hstart, hstop⟩ := Prod.mk.inj heq
  obtain ⟨start, stop, isComment⟩ := f
  simp only at hfcomment hstart hstop
  rw [hfcomment, hstart, hstop, ← hgcomment]

end

/-- The folds of a text with the symbols of a table: in order, each once and inside the text. Those
of blocks belong to the symbols that are longer than a line, and those of comments are the runs of
comment lines, which do not touch, where a classifier reads the whole text. Where it fails, or there
is none, no comment is folded. -/
structure AreFolds (text : String) (t : Table) (folder : Option Classifier) (found : List Fold) :
    Prop where
  sorted : found.Pairwise Fold.AtOrBefore
  nodup : found.Nodup
  bounds : ∀ f ∈ found, f.start < f.stop ∧ f.stop < (lines text).length
  blocks : ∀ start stop, ⟨start, stop, false⟩ ∈ found ↔
    ∃ s ∈ t.symbols, s.line < s.stop ∧ s.line = start ∧ s.stop = stop
  comments : ∀ start stop, ⟨start, stop, true⟩ ∈ found ↔
    ∃ c pieces, folder = some c ∧ c.pieces (lines text) = .ok pieces ∧
      IsRun (CommentAt pieces) start stop
  comments_apart : (found.filter (·.isComment)).Pairwise fun f g => f.stop + 1 < g.start

/-- What is folded in a text that was parsed is just what there is to fold. -/
theorem folds_exact (file : FileId) (text : String) (mode : ParseMode)
    (reader folder : Option Classifier) :
    AreFolds text (Table.parse file text mode reader) folder
      (folds (Table.parse file text mode reader) text folder) where
  sorted := (pairwise_folds_parse ..).imp And.left
  nodup := List.nodup_iff_pairwise_ne.2 ((pairwise_folds_parse ..).imp And.right)
  bounds := fun f hf => bounds_of_mem_folds _ _ _ _ _ hf
  blocks := by
    intro start stop
    rw [mem_folds_parse, mem_blockFolds, mem_commentFoldsIn]
    simp
  comments := by
    intro start stop
    rw [mem_folds_parse, mem_blockFolds, mem_commentFoldsIn]
    simp
  comments_apart := pairwise_comment_folds ..

end RakuAtlas.Query
