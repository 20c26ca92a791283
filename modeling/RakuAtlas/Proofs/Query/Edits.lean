import RakuAtlas.Proofs.Query.Deduplicate
import RakuAtlas.Proofs.Text.Slices
import RakuAtlas.Query.Edit

/-!
# RakuAtlas.Proofs.Query.Edits — applying edits that fit

`Rewrites` says what it means that edits were applied: the text is cut into
pieces that are kept and pieces that the edits replace, each at the offsets of
its edit, and the result has the new texts in place of the old.

* `Stands`: an edit replaces a piece of a text; `LineEdit`: a piece of one line.
* `rewrites_applyEdits`: edits that come one after the other are all applied, and
  nothing else changes; `rewrites_lineEdits`: so are edits of lines.
* `Rewrites.count_newline`: edits without newlines leave the number of lines
  as it was.
* `applyEditsIn?_of_stands`: in a text with offsets of 32 bits, every build applies
  edits that stand in it as they are applied with offsets of any size.
-/

namespace RakuAtlas.Query

open Text

/-! ## What applying edits means -/

/-- The rest of a text that begins at the offset `cursor` becomes `result` by the
edits: every edit stands at its offsets and replaces a piece of which `Old`
holds, and all between the edits is kept. -/
inductive Rewrites (index : LineIndex) (Old : TextEdit → List Char → Prop) :
    Nat → List Char → List TextEdit → List Char → Prop where
  | done {cursor : Nat} {rest : List Char} : Rewrites index Old cursor rest [] rest
  | edit {cursor : Nat} {kept old rest result : List Char} {e : TextEdit} {more : List TextEdit}
      (hstart : index.offset? e.range.start = some (cursor + byteLen kept))
      (hstop : index.offset? e.range.stop = some (cursor + byteLen kept + byteLen old))
      (hold : Old e old)
      (hmore : Rewrites index Old (cursor + byteLen kept + byteLen old) rest more result) :
      Rewrites index Old cursor (kept ++ (old ++ rest)) (e :: more)
        (kept ++ (e.newText.toList ++ result))

/-- Edits that neither remove nor bring in newlines keep their number. -/
theorem Rewrites.count_newline {index : LineIndex} {Old : TextEdit → List Char → Prop}
    {cursor : Nat} {rest result : List Char} {edits : List TextEdit}
    (h : Rewrites index Old cursor rest edits result)
    (hold : ∀ e ∈ edits, ∀ old, Old e old → '\n' ∉ old)
    (hnew : ∀ e ∈ edits, '\n' ∉ e.newText.toList) : result.count '\n' = rest.count '\n' := by
  induction h with
  | done => rfl
  | @edit cursor kept old rest result e more hstart hstop hreplaced hmore ih =>
    have hrest := ih (fun e he => hold e (List.mem_cons_of_mem _ he))
      (fun e he => hnew e (List.mem_cons_of_mem _ he))
    have hnone := List.count_eq_zero_of_not_mem (hold e (List.mem_cons_self ..) old hreplaced)
    have hnone' := List.count_eq_zero_of_not_mem (hnew e (List.mem_cons_self ..))
    simp only [List.count_append]
    omega

/-! ## Edits of a text -/

/-- The edit replaces the piece `old` of the text, which stands behind `front`. -/
structure Stands (text : String) (e : TextEdit) (front old back : List Char) : Prop where
  split : text.toList = front ++ (old ++ back)
  start : (LineIndex.ofText text).offset? e.range.start = some (byteLen front)
  stop : (LineIndex.ofText text).offset? e.range.stop = some (byteLen front + byteLen old)

/-- One edit stops at or before the place where another starts. -/
def StopsBy (index : LineIndex) (a b : TextEdit) : Prop :=
  ∀ i j, index.offset? a.range.stop = some i → index.offset? b.range.start = some j → i ≤ j

/-- The piece of a text that stands in a range. -/
def textUnder? (text : String) (range : Range) : Option (List Char) := do
  let start ← (LineIndex.ofText text).offset? range.start
  let stop ← (LineIndex.ofText text).offset? range.stop
  slice? start stop text.toList

section
variable {text : String} {e : TextEdit} {front old back : List Char}

/-- The piece is what stands in the range of the edit. -/
theorem Stands.textUnder?_eq (h : Stands text e front old back) :
    textUnder? text e.range = some old := by
  simp only [textUnder?, h.start, h.stop, Option.bind_eq_bind, Option.bind_some, h.split]
  exact slice?_append front old back

/-- The splice of an edit that replaces a piece of the text. -/
theorem Stands.ofEdit?_eq (h : Stands text e front old back) :
    Splice.ofEdit? (.ofText text) e =
      some ⟨byteLen front, byteLen front + byteLen old, e.newText.toList⟩ := by
  have hlength : byteLen front + byteLen old ≤ (LineIndex.ofText text).length := by
    show _ ≤ byteLen text.toList
    rw [h.split]
    simp only [byteLen_append]
    omega
  simp [Splice.ofEdit?, Splice.between?, h.start, h.stop, hlength]

end

/-! ## Edits of one line -/

/-- The edit replaces the piece `old` of a line of the text. -/
def LineEdit (text : String) (e : TextEdit) (old : List Char) : Prop :=
  ∃ n line front back, (lines text)[n]? = some line ∧ line = front ++ (old ++ back) ∧
    e.range = .onLine n (byteLen front) (byteLen (front ++ old))

/-- The piece stands in the text. -/
theorem LineEdit.exists_stands {text : String} {e : TextEdit} {old : List Char}
    (h : LineEdit text e old) : ∃ front back, Stands text e front old back := by
  rcases h with ⟨n, line, front, back, hline, hsplit, hrange⟩
  rcases exists_lineBetween hline with ⟨above, below, -, htext, hstart, -⟩
  refine ⟨above ++ front, back ++ below, ?_, ?_, ?_⟩
  · rw [htext, hsplit]
    simp
  · simp [LineIndex.offset?, hrange, Range.onLine, hstart]
  · simp [LineIndex.offset?, hrange, Range.onLine, hstart, Nat.add_assoc]

/-- The piece is what stands in the range of the edit. -/
theorem LineEdit.textUnder?_eq {text : String} {e : TextEdit} {old : List Char}
    (h : LineEdit text e old) : textUnder? text e.range = some old := by
  rcases h.exists_stands with ⟨front, back, hstands⟩
  exact hstands.textUnder?_eq

/-- There is no newline in a piece of a line. -/
theorem LineEdit.newline_not_mem {text : String} {e : TextEdit} {old : List Char}
    (h : LineEdit text e old) : '\n' ∉ old := by
  rcases h with ⟨n, line, front, back, hline, rfl, -⟩
  intro hmem
  exact newline_not_mem_line hline (List.mem_append_right _ (List.mem_append_left _ hmem))

/-- Edits in the order of position are in the order of offset. -/
theorem LineEdit.stopsBy {text : String} {a b : TextEdit} {old old' : List Char}
    (ha : LineEdit text a old) (hb : LineEdit text b old') (h : a.range.stop ≤ b.range.start) :
    StopsBy (.ofText text) a b := by
  intro i j hi hj
  rcases ha with ⟨n, line, front, back, hline, hsplit, hrange⟩
  rcases hb with ⟨m, line', front', back', hline', hsplit', hrange'⟩
  rcases exists_lineBetween hline with ⟨above, -, -, -, hstart, -⟩
  rcases exists_lineBetween hline' with ⟨above', -, -, -, hstart', -⟩
  simp only [hrange, hrange', Range.onLine, Pos.le_iff] at h
  simp only [LineIndex.offset?, hrange, Range.onLine, hstart, Option.map_some,
    Option.some.injEq] at hi
  simp only [LineIndex.offset?, hrange', Range.onLine, hstart', Option.map_some,
    Option.some.injEq] at hj
  rcases h with hlt | ⟨heq, hle⟩
  · -- an earlier line stops before the later one starts
    have hbefore := stop_le_start hline hlt hstart hstart'
    rw [hsplit] at hbefore
    simp only [byteLen_append] at hbefore hi
    omega
  · subst heq
    rw [hstart] at hstart'
    have habove := Option.some.inj hstart'
    omega

/-! ## Applying edits -/

theorem Splice.atOrBefore_iff (a b : Splice) :
    a.atOrBefore b ↔ a.start < b.start ∨ a.start = b.start ∧ a.stop ≤ b.stop := by
  simp only [Splice.atOrBefore, Bool.or_eq_true, Bool.and_eq_true, decide_eq_true_eq, beq_iff_eq]

/-- A splice that fits behind the cursor cuts out its piece. -/
theorem cut?_eq (cursor : Nat) (kept old rest new : List Char) :
    Splice.cut? cursor (kept ++ (old ++ rest))
      ⟨cursor + byteLen kept, cursor + byteLen kept + byteLen old, new⟩ = some (kept, rest) := by
  have hnot : ¬cursor + byteLen kept < cursor := by omega
  simp only [Splice.cut?, hnot, if_false, Nat.add_sub_cancel_left, cutBytes?_byteLen,
    Option.bind_eq_bind, Option.bind_some]
  rfl

/-- The edits of a text from the cursor on are applied one after the other. -/
theorem rewrites_applyFrom {text : String} {Old : TextEdit → List Char → Prop}
    {edits : List TextEdit}
    (hedits : ∀ e ∈ edits, ∃ front old back, Old e old ∧ Stands text e front old back)
    (hsorted : edits.Pairwise (StopsBy (.ofText text)))
    {passed rest : List Char} (htext : text.toList = passed ++ rest)
    (hpassed : ∀ e ∈ edits, ∀ i, (LineIndex.ofText text).offset? e.range.start = some i →
      byteLen passed ≤ i) :
    Rewrites (.ofText text) Old (byteLen passed) rest edits
      (Splice.applyFrom (byteLen passed) rest
        (edits.filterMap (Splice.ofEdit? (.ofText text)))) := by
  induction edits generalizing passed rest with
  | nil => exact .done
  | cons e more ih =>
    rcases hedits e (List.mem_cons_self ..) with ⟨front, old, back, hold, hstands⟩
    rcases List.pairwise_cons.1 hsorted with ⟨hfirst, hmore⟩
    -- the piece stands behind what was passed
    have hle := hpassed e (List.mem_cons_self ..) _ hstands.start
    rcases exists_append_of_byteLen_le (htext.symm.trans hstands.split) hle with ⟨kept, rfl, rfl⟩
    have hsplice := hstands.ofEdit?_eq
    have hstart := hstands.start
    have hstop := hstands.stop
    rw [byteLen_append] at hstart hstop hsplice
    have hnext : byteLen (passed ++ (kept ++ old)) =
        byteLen passed + byteLen kept + byteLen old := by
      simp only [byteLen_append]
      omega
    have hrest := @ih (fun e he => hedits e (List.mem_cons_of_mem _ he)) hmore
      (passed ++ (kept ++ old)) back (by rw [hstands.split]; simp) (by
        intro e' he' i hi
        rw [hnext]
        exact hfirst e' he' _ _ hstop hi)
    rw [hnext] at hrest
    rw [List.filterMap_cons, hsplice]
    simp only [Splice.applyFrom, cut?_eq, List.append_assoc]
    exact .edit hstart hstop hold hrest

/-- Edits that come one after the other are all applied, and nothing else
changes. -/
theorem rewrites_applyEdits {text : String} {Old : TextEdit → List Char → Prop}
    {edits : List TextEdit}
    (hedits : ∀ e ∈ edits, ∃ front old back, Old e old ∧ Stands text e front old back)
    (hsorted : edits.Pairwise (StopsBy (.ofText text))) :
    Rewrites (.ofText text) Old 0 text.toList edits (applyEdits text edits).toList := by
  have hsplices : (edits.filterMap (Splice.ofEdit? (.ofText text))).Pairwise
      fun a b => Splice.atOrBefore a b := by
    rw [List.pairwise_filterMap]
    refine hsorted.imp_of_mem ?_
    intro e e' he he' hstops s hs s' hs'
    rcases hedits e he with ⟨front, old, back, -, hstands⟩
    rcases hedits e' he' with ⟨front', old', back', -, hstands'⟩
    have hoffsets := hstops _ _ hstands.stop hstands'.start
    rw [hstands.ofEdit?_eq] at hs
    rw [hstands'.ofEdit?_eq] at hs'
    cases hs
    cases hs'
    rw [Splice.atOrBefore_iff]
    dsimp only
    omega
  rw [applyEdits, applySplices, List.mergeSort_of_pairwise hsplices, String.toList_ofList]
  exact @rewrites_applyFrom text Old edits hedits hsorted [] text.toList rfl
    fun _ _ _ _ => Nat.zero_le _

/-- Edits of lines, one after the other, are all applied, and nothing else
changes. -/
theorem rewrites_lineEdits {text : String} {Old : TextEdit → List Char → Prop}
    {edits : List TextEdit} (hedits : ∀ e ∈ edits, ∃ old, Old e old ∧ LineEdit text e old)
    (hsorted : edits.Pairwise fun a b => a.range.stop ≤ b.range.start) :
    Rewrites (.ofText text) Old 0 text.toList edits (applyEdits text edits).toList := by
  apply rewrites_applyEdits
  · intro e he
    rcases hedits e he with ⟨old, hold, hline⟩
    rcases hline.exists_stands with ⟨front, back, hstands⟩
    exact ⟨front, old, back, hold, hstands⟩
  · refine hsorted.imp_of_mem ?_
    intro a b ha hb hle
    rcases hedits a ha with ⟨old, -, hline⟩
    rcases hedits b hb with ⟨old', -, hline'⟩
    exact hline.stopsBy hline' hle

/-! ## Offsets in 32 bits -/

theorem mapM_eq_some_map {α β : Type} {f : α → Option β} {g : α → β} {xs : List α}
    (h : ∀ x ∈ xs, f x = some (g x)) : xs.mapM f = some (xs.map g) := by
  induction xs with
  | nil => rfl
  | cons x more ih =>
    rw [List.forall_mem_cons] at h
    rw [List.mapM_cons, h.1, ih h.2]
    rfl

/-- An edit that stands in a text with offsets of 32 bits is the same splice in every
build. -/
theorem Stands.ofEditIn?_eq {text : String} {e : TextEdit} {front old back : List Char}
    (h : Stands text e front old back) (hsize : byteLen text.toList < offsetLimit) (build : Build) :
    Splice.ofEditIn? build (.ofText text) e = some (Splice.ofEdit? (.ofText text) e) := by
  have hlength : byteLen front + byteLen old < offsetLimit := by
    rw [h.split] at hsize
    simp only [byteLen_append] at hsize
    omega
  have hstart := LineIndex.offsetIn?_of_lt h.start (by omega) build
  have hstop := LineIndex.offsetIn?_of_lt h.stop hlength build
  simp [Splice.ofEditIn?, Splice.ofEdit?, hstart, hstop, h.start, h.stop]

theorem applyEditsIn?_of_mapM {build : Build} {text : String} {edits : List TextEdit}
    {splices : List (Option Splice)} (hsize : byteLen text.toList < offsetLimit)
    (h : edits.mapM (Splice.ofEditIn? build (.ofText text)) = some splices) :
    applyEditsIn? build text edits = some (applySplices text (splices.filterMap id)) := by
  rw [applyEditsIn?, LineIndex.ofTextIn?, if_pos hsize]
  simp [h]

/-- So every build applies such edits, as they are applied with offsets of any size. -/
theorem applyEditsIn?_of_stands {text : String} {edits : List TextEdit}
    (hstands : ∀ e ∈ edits, ∃ front old back, Stands text e front old back)
    (hsize : byteLen text.toList < offsetLimit) (build : Build) :
    applyEditsIn? build text edits = some (applyEdits text edits) := by
  have hsplices : edits.mapM (Splice.ofEditIn? build (.ofText text)) =
      some (edits.map (Splice.ofEdit? (.ofText text))) := by
    refine mapM_eq_some_map fun e he => ?_
    obtain ⟨front, old, back, hstand⟩ := hstands e he
    exact hstand.ofEditIn?_eq hsize build
  rw [applyEditsIn?_of_mapM hsize hsplices, applyEdits, List.filterMap_map, Function.id_comp]

end RakuAtlas.Query
