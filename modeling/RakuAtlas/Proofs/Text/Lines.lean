import RakuAtlas.Text.Lines

/-!
# RakuAtlas.Proofs.Text.Lines — lines inside their text

A text is cut into parts at its newlines, and a line is such a part without its
carriage return (`exists_part_of_line`). Where the lines start goes with that:

* `stop_le_start`: a line stops before the next one starts, so that positions
  on different lines are in the order of their offsets.
* `newline_not_mem_line` and `length_lines`: there is one line more than there
  are newlines, and none of them has one in it.
* `offset?_of_front`: what stands behind an offset does not matter for it.
-/

namespace RakuAtlas.Text

theorem byteLen_pos {cs : List Char} (h : cs ≠ []) : 0 < byteLen cs := by
  cases cs with
  | nil => exact absurd rfl h
  | cons c more =>
    have hpos := Char.utf8Size_pos c
    rw [byteLen_cons]
    omega

theorem eq_nil_of_byteLen {cs : List Char} (h : byteLen cs = 0) : cs = [] := by
  cases cs with
  | nil => rfl
  | cons c more =>
    have hpos := byteLen_pos (List.cons_ne_nil c more)
    omega

/-- Two fronts of one text are the same if they are equally long. -/
theorem front_eq_of_byteLen {front front' back back' : List Char}
    (happend : front ++ back = front' ++ back') (hlen : byteLen front = byteLen front') :
    front = front' ∧ back = back' := by
  have hcut := cutBytes?_byteLen front back
  rw [happend, hlen, cutBytes?_byteLen] at hcut
  rcases Prod.mk.inj (Option.some.inj hcut) with ⟨hfront, hback⟩
  exact ⟨hfront.symm, hback.symm⟩

/-! ## Parts between separators -/

/-- The first part goes on with a character that does not separate. -/
theorem splitWhen_cons_of_not {p : Char → Bool} {c : Char} (h : p c = false) (cs : List Char) :
    ∃ part parts, splitWhen p cs = part :: parts ∧
      splitWhen p (c :: cs) = (c :: part) :: parts := by
  rcases hsplit : splitWhen p cs with _ | ⟨part, parts⟩
  · exact absurd hsplit (splitWhen_ne_nil p cs)
  · refine ⟨part, parts, rfl, ?_⟩
    simp [splitWhen, h, hsplit]

theorem splitWhen_cons_of {p : Char → Bool} {c : Char} (h : p c = true) (cs : List Char) :
    splitWhen p (c :: cs) = [] :: splitWhen p cs := by
  simp [splitWhen, h]

/-- No part has a separator in it. -/
theorem not_of_mem_splitWhen {p : Char → Bool} {cs part : List Char}
    (h : part ∈ splitWhen p cs) : ∀ c ∈ part, p c = false := by
  induction cs generalizing part with
  | nil =>
    simp only [splitWhen, List.mem_singleton] at h
    simp [h]
  | cons c cs ih =>
    cases hc : p c with
    | true =>
      rw [splitWhen_cons_of hc] at h
      rcases List.mem_cons.1 h with rfl | hmore
      · simp
      · exact ih hmore
    | false =>
      rcases splitWhen_cons_of_not hc cs with ⟨first, parts, hsplit, hcons⟩
      rw [hcons] at h
      rcases List.mem_cons.1 h with rfl | hmore
      · have hfirst := @ih first (by rw [hsplit]; exact List.mem_cons_self ..)
        exact List.forall_mem_cons.2 ⟨hc, hfirst⟩
      · exact ih (by rw [hsplit]; exact List.mem_cons_of_mem _ hmore)

/-- What stands in front of the first separator is the first part. -/
theorem splitWhen_append {p : Char → Bool} {piece : List Char} (h : ∀ c ∈ piece, p c = false)
    {sep : Char} (hsep : p sep = true) (rest : List Char) :
    splitWhen p (piece ++ sep :: rest) = piece :: splitWhen p rest := by
  induction piece with
  | nil => exact splitWhen_cons_of hsep rest
  | cons c piece ih =>
    rw [List.forall_mem_cons] at h
    rcases splitWhen_cons_of_not h.1 (piece ++ sep :: rest) with ⟨part, parts, hsplit, hcons⟩
    rw [ih h.2] at hsplit
    rcases List.cons.inj hsplit with ⟨rfl, rfl⟩
    exact hcons

theorem splitWhen_of_forall {p : Char → Bool} {piece : List Char} (h : ∀ c ∈ piece, p c = false) :
    splitWhen p piece = [piece] := by
  induction piece with
  | nil => rfl
  | cons c piece ih =>
    rw [List.forall_mem_cons] at h
    rcases splitWhen_cons_of_not h.1 piece with ⟨part, parts, hsplit, hcons⟩
    rw [ih h.2] at hsplit
    rcases List.cons.inj hsplit with ⟨rfl, rfl⟩
    exact hcons

/-- Parts that are put together come apart again. -/
theorem splitWhen_intercalate {p : Char → Bool} {sep : Char} (hsep : p sep = true)
    {pieces : List (List Char)} (hne : pieces ≠ []) (h : ∀ piece ∈ pieces, ∀ c ∈ piece, p c = false) :
    splitWhen p ([sep].intercalate pieces) = pieces := by
  induction pieces with
  | nil => exact absurd rfl hne
  | cons piece more ih =>
    rw [List.forall_mem_cons] at h
    cases more with
    | nil =>
      rw [List.intercalate_singleton]
      exact splitWhen_of_forall h.1
    | cons next more =>
      rw [List.intercalate_cons_cons, List.append_assoc, List.singleton_append,
        splitWhen_append h.1 hsep, ih (List.cons_ne_nil _ _) h.2]

/-- There is one part more than there are separators. -/
theorem length_splitWhen (p : Char → Bool) (cs : List Char) :
    (splitWhen p cs).length = cs.countP p + 1 := by
  induction cs with
  | nil => rfl
  | cons c cs ih =>
    cases hc : p c with
    | true => simp [splitWhen_cons_of hc, hc, ih]
    | false =>
      rcases splitWhen_cons_of_not hc cs with ⟨first, parts, hsplit, hcons⟩
      rw [hsplit] at ih
      simp only [List.length_cons] at ih
      simp [hcons, hc, ih]

/-! ## Starts -/

open LineIndex (startsAfter)

/-- Later lines start at larger offsets. -/
theorem lt_of_mem_startsAfter {offset start : Nat} {cs : List Char}
    (h : start ∈ startsAfter offset cs) : offset < start := by
  induction cs generalizing offset with
  | nil => simp [startsAfter] at h
  | cons c cs ih =>
    have hpos := Char.utf8Size_pos c
    simp only [startsAfter] at h
    split at h
    · rcases List.mem_cons.1 h with rfl | hmore
      · omega
      · have hlt := ih hmore
        omega
    · have hlt := ih h
      omega

theorem startsAfter_append (offset : Nat) (front back : List Char) :
    startsAfter offset (front ++ back) =
      startsAfter offset front ++ startsAfter (offset + byteLen front) back := by
  induction front generalizing offset with
  | nil => rfl
  | cons c front ih =>
    rw [List.cons_append, startsAfter, startsAfter, byteLen_cons, ← Nat.add_assoc]
    split
    · rw [ih, List.cons_append]
    · exact ih _

/-- A position at an offset in the front of a text has that offset in every text
with the same front. -/
theorem offset?_of_front {text text' : String} {front back back' : List Char}
    (h : text.toList = front ++ back) (h' : text'.toList = front ++ back') {p : Pos} {i : Nat}
    (hp : (LineIndex.ofText text).offset? p = some i) (hle : i ≤ byteLen front) :
    (LineIndex.ofText text').offset? p = some i := by
  obtain ⟨start, hstart, rfl⟩ := Option.map_eq_some_iff.1 hp
  have hstarts : ∀ {t : String} {more : List Char}, t.toList = front ++ more →
      (LineIndex.ofText t).starts = (0 :: startsAfter 0 front) ++ startsAfter (byteLen front) more := by
    intro t more ht
    rw [LineIndex.ofText, ht, startsAfter_append, Nat.zero_add, List.cons_append]
  rw [hstarts h, List.getElem?_append] at hstart
  split at hstart
  · next hlt =>
    rw [LineIndex.offset?, hstarts h', List.getElem?_append_left hlt, hstart, Option.map_some]
  · -- lines that start behind the front have larger offsets
    have hlt := lt_of_mem_startsAfter (List.mem_of_getElem? hstart)
    omega

/-- A part between newlines stops before a later one starts. -/
theorem part_stop_lt_start {cs part : List Char} {n m offset a b : Nat}
    (h : (splitWhen (· == '\n') cs)[n]? = some part) (hlt : n < m)
    (ha : (offset :: startsAfter offset cs)[n]? = some a)
    (hb : (offset :: startsAfter offset cs)[m]? = some b) : a + byteLen part < b := by
  induction cs generalizing n m offset part a with
  | nil =>
    cases m with
    | zero => omega
    | succ m => simp [startsAfter] at hb
  | cons c cs ih =>
    have hpos := Char.utf8Size_pos c
    cases m with
    | zero => omega
    | succ m =>
      rw [List.getElem?_cons_succ] at hb
      by_cases hc : c = '\n'
      · rw [splitWhen_cons_of (by simp [hc])] at h
        rw [startsAfter, if_pos hc] at ha hb
        cases n with
        | zero =>
          simp only [List.getElem?_cons_zero, Option.some.injEq] at h ha
          -- the part before the newline is empty, and later parts start behind it
          have hle : offset + c.utf8Size ≤ b := by
            rcases List.mem_cons.1 (List.mem_of_getElem? hb) with heq | hmem
            · exact Nat.le_of_eq heq.symm
            · exact Nat.le_of_lt (lt_of_mem_startsAfter hmem)
          rw [← h, byteLen_nil]
          omega
        | succ n =>
          rw [List.getElem?_cons_succ] at h ha
          exact ih h (by omega) ha hb
      · rcases @splitWhen_cons_of_not (· == '\n') c (by simp [hc]) cs with
          ⟨first, parts, hsplit, hcons⟩
        rw [hcons] at h
        rw [startsAfter, if_neg hc] at ha hb
        cases n with
        | zero =>
          simp only [List.getElem?_cons_zero, Option.some.injEq] at h ha
          -- the first part is longer by this character than that of the rest
          have hfirst := @ih first 0 (m + 1) (offset + c.utf8Size) (offset + c.utf8Size)
            (by rw [hsplit]; rfl) (by omega) rfl (by rw [List.getElem?_cons_succ]; exact hb)
          rw [← h, byteLen_cons]
          omega
        | succ n =>
          rw [List.getElem?_cons_succ] at h ha
          exact @ih part (n + 1) (m + 1) (offset + c.utf8Size) a (by rw [hsplit]; exact h)
            (by omega) (by rw [List.getElem?_cons_succ]; exact ha)
            (by rw [List.getElem?_cons_succ]; exact hb)

/-! ## Lines -/

/-- What a line loses is a carriage return, or nothing. -/
theorem dropReturn_cases (part : List Char) :
    part = dropReturn part ∨ part = dropReturn part ++ ['\r'] := by
  unfold dropReturn
  split
  · next hlast =>
    right
    rcases List.getLast?_eq_some_iff.1 hlast with ⟨front, rfl⟩
    simp
  · exact Or.inl rfl

/-- A line is a part between newlines without its carriage return. -/
theorem exists_part_of_line {text : String} {n : Nat} {line : Line}
    (h : (lines text)[n]? = some line) :
    ∃ part ret, (splitWhen (· == '\n') text.toList)[n]? = some part ∧ part = line ++ ret ∧
      (ret = [] ∨ ret = ['\r']) := by
  rw [lines, linesOf, List.getElem?_map] at h
  rcases Option.map_eq_some_iff.1 h with ⟨part, hpart, rfl⟩
  rcases dropReturn_cases part with hkept | hdropped
  · exact ⟨part, [], hpart, by rw [List.append_nil]; exact hkept, Or.inl rfl⟩
  · exact ⟨part, ['\r'], hpart, hdropped, Or.inr rfl⟩

/-- A line stops before a later one starts. -/
theorem stop_le_start {text : String} {n m a b : Nat} {line : Line}
    (h : (lines text)[n]? = some line) (hlt : n < m)
    (ha : (LineIndex.ofText text).starts[n]? = some a)
    (hb : (LineIndex.ofText text).starts[m]? = some b) : a + byteLen line ≤ b := by
  rcases exists_part_of_line h with ⟨part, ret, hpart, rfl, -⟩
  have hstop := part_stop_lt_start hpart hlt ha hb
  rw [byteLen_append] at hstop
  omega

theorem newline_not_mem_line {text : String} {n : Nat} {line : Line}
    (h : (lines text)[n]? = some line) : '\n' ∉ line := by
  rcases exists_part_of_line h with ⟨part, ret, hpart, rfl, -⟩
  intro hmem
  have hnot := not_of_mem_splitWhen (List.mem_of_getElem? hpart) '\n' (List.mem_append_left _ hmem)
  simp at hnot

/-- There is one line more than there are newlines. -/
theorem length_lines (text : String) : (lines text).length = text.toList.count '\n' + 1 := by
  rw [lines, linesOf, List.length_map, length_splitWhen]
  rfl

end RakuAtlas.Text
