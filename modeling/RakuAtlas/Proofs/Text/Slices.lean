import RakuAtlas.Proofs.Text.Breaks
import RakuAtlas.Proofs.Text.Offsets

/-!
# RakuAtlas.Proofs.Text.Slices — lines as slices of their text

What is read, searched for and looked up is found on the lines that a text is split into, at
columns of theirs. What is edited is found in the text as a whole, at the offsets that the index of
its lines gives. Both mean the same characters:

* `slice?_within`: a slice of a piece of a text is a slice of the text, as many bytes further on as
  stand before the piece;
* `lineIn?_ofText`: reading a line out of the text, from where it starts to before the next one
  starts, gives the line of the same number that splitting gives;
* `LineIndex.views_agree`: so both views have the same lines, and between two columns of a line
  stands what stands between their offsets in the text.
-/

namespace RakuAtlas.Text

/-! ## Slices -/

/-- Of two ways to cut a text, the one with the shorter front cuts the front of the other. -/
theorem exists_append_of_byteLen_le {xs ys front back : List Char} (h : xs ++ ys = front ++ back)
    (hle : byteLen xs ≤ byteLen front) : ∃ kept, front = xs ++ kept ∧ ys = kept ++ back := by
  rcases List.append_eq_append_iff.1 h with ⟨kept, hfront, hys⟩ | ⟨kept, hxs, hback⟩
  · exact ⟨kept, hfront, hys⟩
  · -- the other way round nothing is left between the two
    rw [hxs, byteLen_append] at hle
    have hkept : kept = [] := eq_nil_of_byteLen (by omega)
    subst hkept
    exact ⟨[], by simpa using hxs.symm, by simpa using hback.symm⟩

/-- What stands between two offsets stands behind what is before the first. -/
theorem exists_append_of_slice? {start stop : Nat} {cs old : List Char}
    (h : slice? start stop cs = some old) :
    ∃ front back, cs = front ++ (old ++ back) ∧ byteLen front = start ∧
      byteLen front + byteLen old = stop := by
  unfold slice? at h
  split at h
  · next hle =>
    simp only [Option.bind_eq_bind, Option.bind_eq_some_iff] at h
    obtain ⟨⟨front, rest⟩, hfront, ⟨piece, back⟩, hback, heq⟩ := h
    obtain rfl : piece = old := Option.some.inj heq
    obtain ⟨rfl, hstart⟩ := append_of_cutBytes? hfront
    obtain ⟨rfl, hlength⟩ := append_of_cutBytes? hback
    exact ⟨front, back, rfl, hstart, by omega⟩
  · cases h

/-- A piece stands between the offsets of its ends. -/
theorem slice?_append (front piece back : List Char) :
    slice? (byteLen front) (byteLen front + byteLen piece) (front ++ (piece ++ back)) =
      some piece := by
  simp [slice?, cutBytes?_byteLen]

/-- A slice of a piece is the slice of the whole that starts and stops as much later as the piece
does. -/
theorem slice?_within (above piece below : List Char) {a b : Nat} (hb : b ≤ byteLen piece) :
    slice? (byteLen above + a) (byteLen above + b) (above ++ (piece ++ below)) =
      slice? a b piece := by
  refine Option.ext fun found => ?_
  constructor
  · intro hwhole
    obtain ⟨front, back, hsplit, hstart, hstop⟩ := exists_append_of_slice? hwhole
    -- the slice starts behind what is above, and stops within the piece
    obtain ⟨inner, rfl, hinner⟩ := exists_append_of_byteLen_le hsplit (by omega)
    rw [byteLen_append] at hstart hstop
    rw [← List.append_assoc] at hinner
    obtain ⟨outer, rfl, -⟩ := exists_append_of_byteLen_le hinner.symm (by
      rw [byteLen_append]
      omega)
    have hslice := slice?_append inner found outer
    rw [show byteLen inner = a by omega, show a + byteLen found = b by omega] at hslice
    rw [List.append_assoc]
    exact hslice
  · intro hpiece
    obtain ⟨inner, outer, rfl, rfl, rfl⟩ := exists_append_of_slice? hpiece
    have hslice := slice?_append (above ++ inner) found (outer ++ below)
    rw [byteLen_append, Nat.add_assoc] at hslice
    simpa only [List.append_assoc] using hslice

/-! ## Lines read out of the text -/

/-- A newline ends every part but the last, and with one more there are as many as parts. -/
theorem total_splitWhen (cs : List Char) :
    total (byteLen · + 1) (splitWhen (· == '\n') cs) = byteLen cs + 1 := by
  induction cs with
  | nil => rfl
  | cons c cs ih =>
    by_cases hc : c = '\n'
    · subst hc
      have hsize : '\n'.utf8Size = 1 := rfl
      rw [splitWhen_cons_of (by simp), total_cons, ih, byteLen_nil, byteLen_cons, hsize]
      omega
    · obtain ⟨part, parts, hsplit, hcons⟩ :=
        @splitWhen_cons_of_not (· == '\n') c (by simp [hc]) cs
      rw [hsplit, total_cons] at ih
      rw [hcons, total_cons, byteLen_cons, byteLen_cons]
      omega

section
variable {text : String} {n : Nat} {part : List Char}

/-- A line starts behind the part before it and the newline between the two. -/
theorem lineStart_succ (h : (splitWhen (· == '\n') text.toList)[n]? = some part) :
    lineStart text (n + 1) = lineStart text n + byteLen part + 1 := by
  rw [lineStart, lineStart, List.take_add_one, h, total_append, Nat.add_assoc]
  rfl

theorem lt_length_lines (h : (splitWhen (· == '\n') text.toList)[n]? = some part) :
    n < (lines text).length := by
  rw [lines, linesOf, List.length_map]
  exact (List.getElem?_eq_some_iff.1 h).1

namespace LineIndex

/-- What is read out as a line goes from where the line starts to where its part ends: one byte
before the next line starts, and with the text if there is no next line. -/
theorem lineIn?_of_part (h : (splitWhen (· == '\n') text.toList)[n]? = some part) :
    (ofText text).lineIn? text n =
      (slice? (lineStart text n) (lineStart text n + byteLen part) text.toList).map dropReturn := by
  have hnext := lineStart_succ h
  simp only [lineIn?, getElem?_starts_of_lt (lt_length_lines h), Option.bind_eq_bind, Option.bind_some]
  by_cases hmore : n + 1 < (lines text).length
  · rw [getElem?_starts_of_lt hmore, hnext, Option.map_eq_bind]
    rfl
  · -- nothing stands behind the last part
    have hall : (splitWhen (· == '\n') text.toList).take (n + 1) =
        splitWhen (· == '\n') text.toList := by
      rw [lines, linesOf, List.length_map] at hmore
      exact List.take_of_length_le (Nat.le_of_not_lt hmore)
    rw [lineStart, hall, total_splitWhen] at hnext
    rw [getElem?_starts, if_neg hmore, ← Nat.add_right_cancel hnext, Option.map_eq_bind]
    rfl

/-- A line stands in the text behind as many bytes as its start says. -/
theorem exists_behind_start (h : (splitWhen (· == '\n') text.toList)[n]? = some part) :
    ∃ above below, text.toList = above ++ (part ++ below) ∧ byteLen above = lineStart text n := by
  obtain ⟨above, below, hbetween⟩ := exists_partBetween 0 h
  have hstart := getElem?_starts_of_lt (lt_length_lines h)
  rw [ofText, hbetween.start, Nat.zero_add] at hstart
  exact ⟨above, below, hbetween.split, Option.some.inj hstart⟩

end LineIndex

end

namespace LineIndex

/-- What is read out of the text as a line is the line that splitting gives. -/
theorem lineIn?_ofText (text : String) (n : Nat) :
    (ofText text).lineIn? text n = (lines text)[n]? := by
  rw [lines, linesOf, List.getElem?_map]
  cases h : (splitWhen (· == '\n') text.toList)[n]? with
  | none =>
    have hnot : ¬n < (lines text).length := by
      rw [lines, linesOf, List.length_map]
      exact Nat.not_lt.2 (List.getElem?_eq_none_iff.1 h)
    rw [lineIn?, getElem?_starts, if_neg hnot]
    rfl
  | some part =>
    obtain ⟨above, below, hsplit, hstart⟩ := exists_behind_start h
    rw [lineIn?_of_part h, ← hstart, hsplit, slice?_append]

/-- The two views of the lines of a text agree. They have the same number of lines, and of every
number the same line or none. A line is the slice of the text that starts where its first column is,
and between two of its columns stands what stands between their offsets. -/
theorem views_agree (text : String) :
    (ofText text).size = (lines text).length ∧
      (∀ n, (ofText text).lineIn? text n = (lines text)[n]?) ∧
      ∀ n line, (lines text)[n]? = some line →
        ∃ start, (ofText text).offset? ⟨n, 0⟩ = some start ∧
          slice? start (start + byteLen line) text.toList = some line ∧
          (∀ col, (ofText text).offset? ⟨n, col⟩ = some (start + col)) ∧
          ∀ a b, b ≤ byteLen line →
            slice? (start + a) (start + b) text.toList = slice? a b line := by
  refine ⟨size_ofText text, lineIn?_ofText text, ?_⟩
  intro n line hline
  obtain ⟨above, below, hbetween⟩ := exists_lineBetween hline
  have hoffset : ∀ col, (ofText text).offset? ⟨n, col⟩ = some (byteLen above + col) := by
    intro col
    rw [offset?, hbetween.start, Option.map_some]
  refine ⟨byteLen above, hoffset 0, ?_, hoffset, ?_⟩
  · rw [hbetween.split]
    exact slice?_append above line below
  · intro a b hb
    rw [hbetween.split]
    exact slice?_within above line below hb

/-- The second line ends in two carriage returns, of which it keeps one, and a column of it counts
the bytes of what is before. -/
theorem views_agree_returns :
    (lines "a\r\nπb\r\r\n")[1]? = some ['π', 'b', '\r'] ∧
      ∃ start, (ofText "a\r\nπb\r\r\n").offset? ⟨1, 0⟩ = some start ∧
        slice? (start + 2) (start + 3) "a\r\nπb\r\r\n".toList = some ['b'] := by
  have hline : (lines "a\r\nπb\r\r\n")[1]? = some ['π', 'b', '\r'] := by decide
  obtain ⟨-, -, hlines⟩ := views_agree "a\r\nπb\r\r\n"
  obtain ⟨start, hstart, -, -, hslice⟩ := hlines 1 _ hline
  have hpiece : slice? 2 3 ['π', 'b', '\r'] = some ['b'] := by decide
  exact ⟨hline, start, hstart, (hslice 2 3 (by decide)).trans hpiece⟩

end LineIndex

end RakuAtlas.Text
