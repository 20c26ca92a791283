import RakuAtlas.Total
import RakuAtlas.Proofs.Text.Lines

/-!
# RakuAtlas.Proofs.Text.Offsets — offsets and positions

A line starts behind the parts of the text above it and the newlines that end them (`lineStart`).
The index of a text has these starts and no others (`getElem?_starts`), and since they ascend, the
last of them that an offset has reached starts the line of the offset. So the position of an offset
is the only one that has this offset and does not reach into the next line (`position_eq_iff`), and
from that follows what holds of the two conversions (`conversions_exact`).
-/

namespace RakuAtlas.Text

/-- The bytes before the line with this number: those of the lines above, with a newline each. -/
def lineStart (text : String) (line : Nat) : Nat :=
  total (byteLen · + 1) ((splitWhen (· == '\n') text.toList).take line)

theorem lineStart_le (text : String) {m n : Nat} (h : m ≤ n) :
    lineStart text m ≤ lineStart text n := by
  obtain ⟨more, hmore⟩ := List.take_prefix_take_left
    (l := splitWhen (· == '\n') text.toList) h
  rw [lineStart, lineStart, ← hmore, total_append]
  exact Nat.le_add_right ..

namespace LineIndex

/-! ## Where lines start -/

/-- Of characters that start at an offset, the parts between newlines start behind one another. -/
theorem getElem?_startsAfter (offset : Nat) (cs : List Char) (line : Nat) :
    (offset :: startsAfter offset cs)[line]? =
      if line < (splitWhen (· == '\n') cs).length then
        some (offset + total (byteLen · + 1) ((splitWhen (· == '\n') cs).take line))
      else none := by
  induction cs generalizing offset line with
  | nil => cases line <;> simp [startsAfter, splitWhen]
  | cons c cs ih =>
    cases line with
    | zero => simp [List.length_pos_iff.2 (splitWhen_ne_nil _ _)]
    | succ line =>
      rw [List.getElem?_cons_succ, startsAfter]
      by_cases hc : c = '\n'
      · subst hc
        rw [if_pos rfl, ih, splitWhen_cons_of (by simp)]
        have hsize : '\n'.utf8Size = 1 := rfl
        simp [hsize, Nat.add_assoc]
      · obtain ⟨part, parts, hsplit, hcons⟩ :=
          @splitWhen_cons_of_not (· == '\n') c (by simp [hc]) cs
        -- the first part is longer by this character, and the others are the same
        have hmore := ih (offset + c.utf8Size) (line + 1)
        rw [List.getElem?_cons_succ, hsplit] at hmore
        rw [if_neg hc, hmore, hcons]
        simp [Nat.add_assoc]

theorem getElem?_starts (text : String) (line : Nat) :
    (ofText text).starts[line]? =
      if line < (lines text).length then some (lineStart text line) else none := by
  rw [ofText, getElem?_startsAfter, lines, linesOf, List.length_map, Nat.zero_add]
  rfl

theorem getElem?_starts_of_lt {text : String} {line : Nat} (h : line < (lines text).length) :
    (ofText text).starts[line]? = some (lineStart text line) := by
  rw [getElem?_starts, if_pos h]

theorem size_ofText (text : String) : (ofText text).size = (lines text).length := by
  have hnone : ∀ n, (ofText text).size ≤ n ↔ (lines text).length ≤ n := by
    intro n
    rw [size, ← List.getElem?_eq_none_iff, getElem?_starts]
    simp
  exact Nat.le_antisymm ((hnone _).2 (Nat.le_refl _)) ((hnone _).1 (Nat.le_refl _))

theorem pairwise_startsAfter (offset : Nat) (cs : List Char) :
    (offset :: startsAfter offset cs).Pairwise (· < ·) := by
  refine List.pairwise_cons.2 ⟨fun start => lt_of_mem_startsAfter, ?_⟩
  induction cs generalizing offset with
  | nil => exact List.Pairwise.nil
  | cons c cs ih =>
    rw [startsAfter]
    split
    · exact List.pairwise_cons.2 ⟨fun start => lt_of_mem_startsAfter, ih _⟩
    · exact ih _

/-- In an ascending list, those that are at most a number are the first ones. -/
theorem lt_length_takeWhile_iff {starts : List Nat} (h : starts.Pairwise (· < ·)) {offset n a : Nat}
    (ha : starts[n]? = some a) : n < (starts.takeWhile (· ≤ offset)).length ↔ a ≤ offset := by
  induction starts generalizing n with
  | nil => cases ha
  | cons first more ih =>
    obtain ⟨hfirst, hmore⟩ := List.pairwise_cons.1 h
    by_cases hle : first ≤ offset
    · rw [List.takeWhile_cons_of_pos (by simpa using hle), List.length_cons]
      cases n with
      | zero =>
        obtain rfl := Option.some.inj ha
        exact iff_of_true (Nat.succ_pos _) hle
      | succ n =>
        rw [Nat.add_lt_add_iff_right]
        exact ih hmore ha
    · rw [List.takeWhile_cons_of_neg (by simpa using hle)]
      refine iff_of_false (Nat.not_lt_zero n) fun ha' => ?_
      -- nothing in the list is less than the first
      obtain rfl | hmem := List.mem_cons.1 (List.mem_of_getElem? ha)
      · exact hle ha'
      · exact hle (Nat.le_of_lt (Nat.lt_of_lt_of_le (hfirst a hmem) ha'))

/-- A line of a text has started at an offset if it is one of the first of them. -/
theorem lt_length_started_iff {text : String} {offset line start : Nat}
    (h : (ofText text).starts[line]? = some start) :
    line < ((ofText text).starts.takeWhile (· ≤ offset)).length ↔ start ≤ offset :=
  lt_length_takeWhile_iff (pairwise_startsAfter 0 text.toList) h

/-! ## The position of an offset -/

/-- A position has an offset, and the next line has not started there. -/
structure IsAt (text : String) (offset : Nat) (p : Pos) : Prop where
  line_lt : p.line < (lines text).length
  offset_eq : lineStart text p.line + p.col = offset
  lt_next : p.line + 1 < (lines text).length → offset < lineStart text (p.line + 1)

section
variable {text : String} {a b : Nat} {p q : Pos}

theorem isAt_position (text : String) (offset : Nat) :
    IsAt text offset ((ofText text).position offset) := by
  -- the first line starts at 0, so that at least one line has started
  obtain ⟨line, hcount⟩ := Nat.exists_eq_add_one_of_ne_zero
    (Nat.ne_of_gt ((@lt_length_started_iff text offset 0 0 rfl).2 (Nat.zero_le offset)))
  have hsize := (List.takeWhile_sublist (· ≤ offset) (l := (ofText text).starts)).length_le
  have hline : line < (lines text).length := by
    rw [← size_ofText, size]
    omega
  have hstart := getElem?_starts_of_lt hline
  have hstarted := (lt_length_started_iff hstart).1 (by rw [hcount]; exact Nat.lt_succ_self line)
  have hposition : (ofText text).position offset = ⟨line, offset - lineStart text line⟩ := by
    simp [position, hcount, hstart]
  rw [hposition]
  refine ⟨hline, Nat.add_sub_cancel' hstarted, fun hnext => Nat.lt_of_not_le fun hle => ?_⟩
  have hlast := (lt_length_started_iff (getElem?_starts_of_lt hnext)).2 hle
  rw [hcount] at hlast
  exact Nat.lt_irrefl (line + 1) hlast

/-- A later offset is on no earlier line. -/
theorem IsAt.line_le (hp : IsAt text a p) (hq : IsAt text b q) (hle : a ≤ b) :
    p.line ≤ q.line := by
  refine Nat.le_of_not_lt fun hlt => ?_
  -- the line behind that of the later offset has started at the earlier one
  have hnext := hq.lt_next (Nat.lt_of_le_of_lt hlt hp.line_lt)
  have hstarts := lineStart_le text (Nat.add_one_le_of_lt hlt)
  have hoffset := hp.offset_eq
  omega

theorem IsAt.unique (hp : IsAt text a p) (hq : IsAt text a q) : p = q := by
  have hline := Nat.le_antisymm (hp.line_le hq (Nat.le_refl a)) (hq.line_le hp (Nat.le_refl a))
  have hoffset := hp.offset_eq
  rw [hline, ← hq.offset_eq] at hoffset
  have hcol : p.col = q.col := Nat.add_left_cancel hoffset
  exact congr (congrArg Pos.mk hline) hcol

theorem IsAt.lt (hp : IsAt text a p) (hq : IsAt text b q) (hlt : a < b) : p < q := by
  obtain hless | hline := Nat.lt_or_eq_of_le (hp.line_le hq (Nat.le_of_lt hlt))
  · exact (Pos.lt_iff p q).2 (Or.inl hless)
  · have hoffset := hp.offset_eq
    have hoffset' := hq.offset_eq
    rw [hline] at hoffset
    exact (Pos.lt_iff p q).2 (Or.inr ⟨hline, by omega⟩)

/-- The position of an offset is the only one that has it and does not reach into the next line. -/
theorem position_eq_iff : (ofText text).position a = p ↔ IsAt text a p := by
  constructor
  · rintro rfl
    exact isAt_position text a
  · exact (isAt_position text a).unique

end

/-! ## Both ways -/

theorem offset?_ofText (text : String) (p : Pos) :
    (ofText text).offset? p =
      if p.line < (lines text).length then some (lineStart text p.line + p.col) else none := by
  rw [offset?, getElem?_starts]
  split <;> rfl

/-- An offset is that of its position. -/
theorem offset?_position (text : String) (offset : Nat) :
    (ofText text).offset? ((ofText text).position offset) = some offset := by
  have hat := isAt_position text offset
  rw [offset?_ofText, if_pos hat.line_lt, hat.offset_eq]

/-- A position is that of its offset just if it does not reach into a next line. -/
theorem map_position_offset?_iff (text : String) (p : Pos) :
    ((ofText text).offset? p).map (ofText text).position = some p ↔
      p.line < (lines text).length ∧ (p.line + 1 = (lines text).length ∨
        p.col < lineStart text (p.line + 1) - lineStart text p.line) := by
  rw [offset?_ofText]
  by_cases hline : p.line < (lines text).length
  · rw [if_pos hline, Option.map_some, Option.some.injEq, position_eq_iff]
    constructor
    · intro hat
      have hnext := hat.lt_next
      omega
    · intro hshort
      exact ⟨hline, rfl, by omega⟩
  · simp [hline]

/-- The two conversions of a text. Every offset is that of its position, and positions are in the
order of their offsets. A position has an offset just if the text has its line, and is that of the
offset just if it does not reach into a next line. -/
theorem conversions_exact (text : String) :
    (∀ offset, (ofText text).offset? ((ofText text).position offset) = some offset) ∧
      (∀ a b, a < b → (ofText text).position a < (ofText text).position b) ∧
      (∀ p, (ofText text).offset? p =
        if p.line < (lines text).length then some (lineStart text p.line + p.col) else none) ∧
      (∀ p, ((ofText text).offset? p).map (ofText text).position = some p ↔
        p.line < (lines text).length ∧ (p.line + 1 = (lines text).length ∨
          p.col < lineStart text (p.line + 1) - lineStart text p.line)) :=
  ⟨offset?_position text, fun a b => (isAt_position text a).lt (isAt_position text b),
    offset?_ofText text, map_position_offset?_iff text⟩

/-- The bytes of a line end still belong to its line; a column behind them is on the next one. -/
example : (ofText "a\r\nb").position 2 = ⟨0, 2⟩ ∧
    ((ofText "a\r\nb").offset? ⟨0, 3⟩).map (ofText "a\r\nb").position = some ⟨1, 0⟩ := by
  decide

/-! ## Offsets in 32 bits -/

/-- An offset that fits is what every build computes. -/
theorem offsetIn?_of_lt {index : LineIndex} {p : Pos} {offset : Nat}
    (h : index.offset? p = some offset) (hlt : offset < offsetLimit) (build : Build) :
    index.offsetIn? build p = some (some offset) := by
  obtain ⟨start, hstart, rfl⟩ := Option.map_eq_some_iff.1 h
  rw [offsetIn?, hstart, Option.mapM_some, Build.add?_of_lt hlt]
  rfl

end LineIndex

end RakuAtlas.Text
