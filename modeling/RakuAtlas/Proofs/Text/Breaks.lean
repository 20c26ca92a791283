import Mathlib.Data.List.TakeWhile
import RakuAtlas.Proofs.Text.Lines

/-!
# RakuAtlas.Proofs.Text.Breaks — lines between line breaks

The two views of the lines of a text, characters and offsets, belong together. The
line with a given number stands in the text behind as many bytes as its start says,
and between two breaks: before it there is nothing or a newline, and behind it
nothing, a newline or a carriage return (`LineBetween`).

* `exists_lineBetween`: every line stands like that;
* `exists_lineBetween_of_piece`: and every piece of a text without a line break is
  on such a line.
-/

namespace RakuAtlas.Text

open LineIndex (startsAfter)

/-! ## Parts between newlines -/

/-- A line may start behind these characters. -/
def AtLineStart (above : List Char) : Prop := ∀ c ∈ above.getLast?, c = '\n'

/-- A line may end before these characters. -/
def AtLineEnd (below : List Char) : Prop := ∀ c ∈ below.head?, c = '\n' ∨ c = '\r'

/-- The part with number `n` of characters that start at `offset` stands between
`above` and `below`, and newlines cut it off from both. -/
structure PartBetween (cs : List Char) (offset n : Nat) (above part below : List Char) : Prop where
  get : (splitWhen (· == '\n') cs)[n]? = some part
  split : cs = above ++ (part ++ below)
  start : (offset :: startsAfter offset cs)[n]? = some (offset + byteLen above)
  opens : AtLineStart above
  closes : ∀ c ∈ below.head?, c = '\n'

theorem AtLineStart.cons {c : Char} {above : List Char} (h : AtLineStart above)
    (hc : above = [] → c = '\n') : AtLineStart (c :: above) := by
  intro d hd
  rw [List.getLast?_cons, Option.mem_some] at hd
  subst hd
  cases hlast : above.getLast? with
  | none => exact hc (List.getLast?_eq_none_iff.1 hlast)
  | some d => exact h d hlast

section
variable {cs above part below : List Char} {offset n : Nat}

/-- The part behind a newline has the next number. -/
theorem PartBetween.newline
    (h : PartBetween cs (offset + '\n'.utf8Size) n above part below) :
    PartBetween ('\n' :: cs) offset (n + 1) ('\n' :: above) part below where
  get := by
    rw [splitWhen_cons_of (by simp), List.getElem?_cons_succ]
    exact h.get
  split := by rw [h.split, List.cons_append]
  start := by
    rw [List.getElem?_cons_succ, startsAfter, if_pos rfl, byteLen_cons, ← Nat.add_assoc]
    exact h.start
  opens := h.opens.cons fun _ => rfl
  closes := h.closes

/-- Another character goes on with the first part, and is before all others. -/
theorem PartBetween.cons {c : Char} (hc : c ≠ '\n')
    (h : PartBetween cs (offset + c.utf8Size) n above part below) :
    (n = 0 ∧ above = [] ∧ PartBetween (c :: cs) offset 0 [] (c :: part) below) ∨
      PartBetween (c :: cs) offset n (c :: above) part below := by
  rcases @splitWhen_cons_of_not (· == '\n') c (by simp [hc]) cs with ⟨first, parts, hsplit, hcons⟩
  have hpart := h.get
  have hstart := h.start
  rw [hsplit] at hpart
  cases n with
  | zero =>
    rw [List.getElem?_cons_zero, Option.some.injEq] at hpart hstart
    have habove : above = [] := eq_nil_of_byteLen (by omega)
    refine Or.inl ⟨rfl, habove, ?_, ?_, ?_, ?_, h.closes⟩
    · rw [hcons, hpart]
      rfl
    · rw [h.split, habove]
      rfl
    · simp
    · simp [AtLineStart]
  | succ n =>
    rw [List.getElem?_cons_succ] at hpart hstart
    refine Or.inr ⟨?_, ?_, ?_, ?_, h.closes⟩
    · rw [hcons]
      exact hpart
    · rw [h.split, List.cons_append]
    · rw [List.getElem?_cons_succ, startsAfter, if_neg hc, byteLen_cons, ← Nat.add_assoc]
      exact hstart
    · -- a later part starts behind the first
      refine h.opens.cons fun hnil => ?_
      have hlt := lt_of_mem_startsAfter (List.mem_of_getElem? hstart)
      rw [hnil, byteLen_nil] at hlt
      omega

end

/-- Every part stands between newlines. -/
theorem exists_partBetween {cs part : List Char} {n : Nat} (offset : Nat)
    (h : (splitWhen (· == '\n') cs)[n]? = some part) :
    ∃ above below, PartBetween cs offset n above part below := by
  induction cs generalizing n offset part with
  | nil =>
    cases n with
    | zero =>
      rw [splitWhen, List.getElem?_cons_zero, Option.some.injEq] at h
      subst h
      exact ⟨[], [], rfl, rfl, rfl, by simp [AtLineStart], by simp⟩
    | succ n => simp [splitWhen] at h
  | cons c cs ih =>
    by_cases hc : c = '\n'
    · subst hc
      rw [splitWhen_cons_of (by simp)] at h
      cases n with
      | zero =>
        rw [List.getElem?_cons_zero, Option.some.injEq] at h
        subst h
        exact ⟨[], '\n' :: cs, by rw [splitWhen_cons_of (by simp)]; rfl, rfl, rfl,
          by simp [AtLineStart], by simp⟩
      | succ n =>
        rcases ih (offset + '\n'.utf8Size) h with ⟨above, below, hbetween⟩
        exact ⟨_, _, hbetween.newline⟩
    · rcases @splitWhen_cons_of_not (· == '\n') c (by simp [hc]) cs with
        ⟨first, parts, hsplit, hcons⟩
      rw [hcons] at h
      cases n with
      | zero =>
        rw [List.getElem?_cons_zero, Option.some.injEq] at h
        subst h
        rcases @ih first 0 (offset + c.utf8Size) (by rw [hsplit]; rfl) with ⟨above, below, hbetween⟩
        rcases hbetween.cons hc with ⟨-, -, hfirst⟩ | hlater
        · exact ⟨_, _, hfirst⟩
        · -- the character would stand before the part, and is part of it
          have hpart := hlater.get
          rw [hcons, List.getElem?_cons_zero, Option.some.injEq] at hpart
          exact absurd hpart (List.cons_ne_self c first)
      | succ n =>
        rcases @ih part (n + 1) (offset + c.utf8Size) (by rw [hsplit]; exact h) with
          ⟨above, below, hbetween⟩
        rcases hbetween.cons hc with ⟨hzero, -⟩ | hlater
        · cases hzero
        · exact ⟨_, _, hlater⟩

/-- Characters go on up to the first newline, if there is one. -/
theorem exists_upTo_newline (cs : List Char) :
    ∃ outer below, cs = outer ++ below ∧ '\n' ∉ outer ∧ ∀ c ∈ below.head?, c = '\n' := by
  refine ⟨cs.takeWhile (· ≠ '\n'), cs.dropWhile (· ≠ '\n'), by simp, fun hmem => ?_, ?_⟩
  · simpa using List.mem_takeWhile_imp hmem
  · intro c hc
    have hstop := List.head?_dropWhile_not (· ≠ '\n') cs
    rw [Option.mem_def.1 hc] at hstop
    simpa using hstop

/-- A piece without a newline is inside one part. -/
theorem exists_partBetween_of_piece {front piece back : List Char} (hpiece : '\n' ∉ piece)
    (offset : Nat) :
    ∃ n above inner outer below, front = above ++ inner ∧ back = outer ++ below ∧
      PartBetween (front ++ (piece ++ back)) offset n above (inner ++ (piece ++ outer)) below := by
  induction front generalizing offset with
  | nil =>
    rcases exists_upTo_newline back with ⟨outer, below, rfl, houter, hbelow⟩
    have hinner : ∀ c ∈ piece ++ outer, (c == '\n') = false := by
      intro c hc
      refine beq_false_of_ne fun heq => ?_
      subst heq
      exact (List.mem_append.1 hc).elim hpiece houter
    refine ⟨0, [], [], outer, below, rfl, rfl, ?_, ?_, rfl, by simp [AtLineStart], hbelow⟩
    · rw [List.nil_append, List.nil_append, ← List.append_assoc]
      cases below with
      | nil => rw [List.append_nil, splitWhen_of_forall hinner, List.getElem?_cons_zero]
      | cons c more =>
        rw [splitWhen_append hinner (by simp [hbelow c rfl]), List.getElem?_cons_zero]
    · simp
  | cons c front ih =>
    rcases ih (offset + c.utf8Size) with ⟨n, above, inner, outer, below, hfront, hback, hbetween⟩
    by_cases hc : c = '\n'
    · subst hc
      exact ⟨_, _, inner, outer, below, by rw [hfront]; rfl, hback, hbetween.newline⟩
    · rcases hbetween.cons hc with ⟨-, hnil, hfirst⟩ | hlater
      · refine ⟨0, [], c :: inner, outer, below, ?_, hback, hfirst⟩
        rw [hfront, hnil]
        rfl
      · exact ⟨n, c :: above, inner, outer, below, by rw [hfront]; rfl, hback, hlater⟩

/-! ## Lines -/

/-- The line with number `n` of a text stands between `above` and `below`, and
line breaks cut it off from both. -/
structure LineBetween (text : String) (n : Nat) (above line below : List Char) : Prop where
  get : (lines text)[n]? = some line
  split : text.toList = above ++ (line ++ below)
  start : (LineIndex.ofText text).starts[n]? = some (byteLen above)
  opens : AtLineStart above
  closes : AtLineEnd below

/-- The offset of a place on a line. -/
theorem LineBetween.offset?_eq {text : String} {n : Nat} {above line below : List Char}
    (h : LineBetween text n above line below) (inner : List Char) :
    (LineIndex.ofText text).offset? ⟨n, byteLen inner⟩ = some (byteLen (above ++ inner)) := by
  simp [LineIndex.offset?, h.start]

/-- The line of a part stands where the part does, and ends before what is not of
it. -/
theorem PartBetween.line {text : String} {n : Nat} {above line ret below : List Char}
    (h : PartBetween text.toList 0 n above (line ++ ret) below)
    (hline : (lines text)[n]? = some line) (hret : ret = [] ∨ ret = ['\r']) :
    LineBetween text n above line (ret ++ below) where
  get := hline
  split := by rw [h.split, List.append_assoc]
  start := by
    have hstart := h.start
    rw [Nat.zero_add] at hstart
    exact hstart
  opens := h.opens
  closes := by
    rcases hret with rfl | rfl
    · exact fun c hc => Or.inl (h.closes c hc)
    · simp [AtLineEnd]

/-- Every line stands between line breaks. -/
theorem exists_lineBetween {text : String} {n : Nat} {line : Line}
    (h : (lines text)[n]? = some line) : ∃ above below, LineBetween text n above line below := by
  rcases exists_part_of_line h with ⟨part, ret, hpart, rfl, hret⟩
  rcases exists_partBetween 0 hpart with ⟨above, below, hbetween⟩
  exact ⟨above, ret ++ below, hbetween.line h hret⟩

/-- A piece of a text without line breaks is inside one line. -/
theorem exists_lineBetween_of_piece {text : String} {front piece back : List Char}
    (htext : text.toList = front ++ (piece ++ back)) (hne : piece ≠ [])
    (hpiece : ∀ c ∈ piece, c ≠ '\n' ∧ c ≠ '\r') :
    ∃ n above inner outer below, front = above ++ inner ∧ back = outer ++ below ∧
      LineBetween text n above (inner ++ (piece ++ outer)) below := by
  have hnewline : '\n' ∉ piece := fun hmem => (hpiece _ hmem).1 rfl
  rcases exists_partBetween_of_piece hnewline 0 with
    ⟨n, above, inner, outer, below, hfront, hback, hbetween⟩
  rw [← htext] at hbetween
  have hline : (lines text)[n]? = some (dropReturn (inner ++ (piece ++ outer))) := by
    rw [lines, linesOf, List.getElem?_map, hbetween.get, Option.map_some]
  rcases dropReturn_cases (inner ++ (piece ++ outer)) with hkept | hdropped
  · rw [← hkept] at hline
    rw [← List.append_nil (inner ++ (piece ++ outer))] at hbetween
    exact ⟨n, above, inner, outer, [] ++ below, hfront, hback, hbetween.line hline (Or.inl rfl)⟩
  · -- the carriage return is behind the piece, which does not end with one
    rcases List.eq_nil_or_concat outer with rfl | ⟨more, last, rfl⟩
    · rcases List.eq_nil_or_concat piece with rfl | ⟨init, last, rfl⟩
      · exact absurd rfl hne
      · rw [List.append_nil, List.concat_eq_append, ← List.append_assoc] at hdropped
        have hlast := (List.append_inj' hdropped rfl).2
        rw [List.singleton_inj.1 hlast] at hpiece
        exact absurd rfl (hpiece '\r' (by simp)).2
    · rw [List.concat_eq_append] at hdropped hback hbetween hline
      rw [← List.append_assoc, ← List.append_assoc] at hdropped hbetween hline
      rcases List.append_inj' hdropped rfl with ⟨hmore, hlast⟩
      rw [← hmore, List.append_assoc] at hline
      rw [hlast, List.append_assoc inner] at hbetween
      refine ⟨n, above, inner, more, ['\r'] ++ below, hfront, ?_, hbetween.line hline (Or.inr rfl)⟩
      rw [hback, hlast, List.append_assoc]

end RakuAtlas.Text
