import RakuAtlas.Proofs.Query.Exactness
import RakuAtlas.Proofs.Text.Breaks
import RakuAtlas.Proofs.Text.Templates

/-!
# RakuAtlas.Proofs.Query.Seats — where a name may stand

Whether a name that is written somewhere is found there depends on what stands
before it and behind it, and not on the name. `Seat` says which surroundings
will do: those of a plain name, or of a variable in one of its spellings.

* `Seat.congr`: a seat looks at little of its surroundings. Another name next to
  it, or the end of the line in place of the next line, are the same to it
  (`LooksLike`).
* `not_seat_inside` and `eq_of_seats`: no seat is inside a name, and at one place
  only one name has a seat.
* `seat_iff_mem_occurrences`: the search finds a name at its seats.
-/

namespace RakuAtlas.Query

open Unicode (isAlphabetic)
open Text
open RakuAtlas.Symbol (SymbolName isSigil isTwigil)

/-! ## Surroundings that are alike -/

/-- Characters next to a name that are the same up to where a line ends or a word
starts, with a character of the class `p`. -/
inductive LooksLike (p : Char → Bool) : Line → Line → Prop where
  | edge {xs ys : Line} (hx : AtLineEnd xs) (hy : AtLineEnd ys) : LooksLike p xs ys
  | word {xs ys : Line} (hx : headIs p xs) (hy : headIs p ys) : LooksLike p xs ys
  | cons (c : Char) {xs ys : Line} (h : LooksLike p xs ys) : LooksLike p (c :: xs) (c :: ys)

theorem LooksLike.symm {p : Char → Bool} {xs ys : Line} (h : LooksLike p xs ys) :
    LooksLike p ys xs := by
  induction h with
  | edge hx hy => exact .edge hy hx
  | word hx hy => exact .word hy hx
  | cons c _ ih => exact .cons c ih

/-- At the end of a line there is nothing of a class without line breaks. -/
theorem any_head?_of_atLineEnd {q : Char → Bool} (hq : q '\n' = false ∧ q '\r' = false) {xs : Line}
    (h : AtLineEnd xs) : xs.head?.any q = false := by
  cases xs with
  | nil => rfl
  | cons c xs => rcases h c rfl with rfl | rfl <;> simp [hq]

theorem any_head?_of_headIs {p q : Char → Bool} {b : Bool} (hp : ∀ c, p c → q c = b) {xs : Line}
    (h : headIs p xs) : xs.head?.any q = b := by
  cases xs with
  | nil => cases h
  | cons c xs => exact hp c h

/-- Classes that do not tell words apart see the same next character. -/
theorem LooksLike.any_head? {p q : Char → Bool} {b : Bool} {xs ys : Line} (h : LooksLike p xs ys)
    (hp : ∀ c, p c → q c = b) (hq : q '\n' = false ∧ q '\r' = false) :
    xs.head?.any q = ys.head?.any q := by
  cases h with
  | edge hx hy => rw [any_head?_of_atLineEnd hq hx, any_head?_of_atLineEnd hq hy]
  | word hx hy => rw [any_head?_of_headIs hp hx, any_head?_of_headIs hp hy]
  | cons c _ => rfl

/-- A character that neither breaks a line nor starts a word is next in both. -/
theorem LooksLike.exists_cons {p : Char → Bool} {c : Char} {xs ys : Line}
    (h : LooksLike p (c :: xs) ys) (hp : p c = false) (hc : c ≠ '\n' ∧ c ≠ '\r') :
    ∃ more, ys = c :: more ∧ LooksLike p xs more := by
  cases h with
  | edge hx hy => exact ((hx c rfl).elim hc.1 hc.2).elim
  | word hx hy => exact absurd hx (by simp [headIs, hp])
  | cons _ hmore => exact ⟨_, rfl, hmore⟩

/-- A name makes no difference to a template in which others stand. -/
theorem looksLike_fill {p : Char → Bool} {x y : Line} (hx : headIs p x) (hy : headIs p y)
    (t : Template) : LooksLike p (t.fill x) (t.fill y) := by
  induction t with
  | nil => exact .edge (by simp [AtLineEnd]) (by simp [AtLineEnd])
  | cons slot t ih =>
    cases slot with
    | some c => exact .cons c ih
    | none => exact .word (headIs_append hx _) (headIs_append hy _)

/-- What is behind the end of a line makes no difference. -/
theorem looksLike_append {p : Char → Bool} (cs : Line) {outside : Line} (h : AtLineEnd outside) :
    LooksLike p cs (cs ++ outside) := by
  induction cs with
  | nil => exact .edge (by simp [AtLineEnd]) h
  | cons c cs ih => exact .cons c ih

/-! ## The ends of names -/

theorem isAsciiWord_of_isAsciiStart {c : Char} (h : isAsciiStart c) : isAsciiWord c := by
  simp only [isAsciiStart, isAsciiWord, Char.isAlphanum, Bool.or_eq_true] at h ⊢
  tauto

/-- A hyphen joins what goes on like that. -/
theorem joins_of_isAsciiStart {c : Char} (h : isAsciiStart c) :
    (isAlphabetic c || c == '_') = true := by
  simp only [isAsciiStart, Bool.or_eq_true] at h ⊢
  refine h.imp_left fun halpha => ?_
  have hascii := isAscii_of_isAlphanum (c := c) (by simp [Char.isAlphanum, halpha])
  simp [isAlphabetic, Unicode.isLetter, hascii, halpha]

theorem isIdentifierChar_lineBreak :
    isIdentifierChar '\n' = false ∧ isIdentifierChar '\r' = false := by
  decide +kernel

theorem endsIdentifier_of_atLineEnd {xs : Line} (h : AtLineEnd xs) : endsIdentifier xs := by
  cases xs with
  | nil => rfl
  | cons c xs =>
    rcases h c rfl with rfl | rfl <;> simp [endsIdentifier.eq_def, isIdentifierChar_lineBreak]

theorem startsIdentifier_of_atLineEnd {xs : Line} (h : AtLineEnd xs) : startsIdentifier xs := by
  cases xs with
  | nil => rfl
  | cons c xs =>
    rcases h c rfl with rfl | rfl <;>
      simp [startsIdentifier, isIdentifierChar_lineBreak, isSigil, isTwigil]

theorem not_endsIdentifier_of_word {xs : Line} (h : headIs isAsciiWord xs) :
    endsIdentifier xs = false := by
  cases xs with
  | nil => cases h
  | cons c xs => simp [endsIdentifier.eq_def, isIdentifierChar_of_isAsciiWord h]

theorem not_startsIdentifier_of_word {xs : Line} (h : headIs isAsciiWord xs) :
    startsIdentifier xs = false := by
  cases xs with
  | nil => cases h
  | cons c xs => simp [startsIdentifier, isIdentifierChar_of_isAsciiWord h]

/-- Behind two colons a name goes on with what could be part of one. -/
theorem endsIdentifier_colons (cs : Line) :
    endsIdentifier (':' :: ':' :: cs) = !cs.head?.any isIdentifierChar := by
  have hcolon : isIdentifierChar ':' = false := by decide +kernel
  simp [endsIdentifier.eq_def, hcolon]

theorem endsIdentifier_colon_of_not {cs : Line} (h : ∀ more, cs ≠ ':' :: more) :
    endsIdentifier (':' :: cs) := by
  have hcolon : isIdentifierChar ':' = false := by decide +kernel
  simp [endsIdentifier.eq_def, hcolon]

/-- Whether a name ends depends on the characters up to the next word. -/
theorem endsIdentifier_congr {xs ys : Line} (h : LooksLike isAsciiStart xs ys) :
    endsIdentifier xs = endsIdentifier ys := by
  have hword : ∀ c, isAsciiStart c → isIdentifierChar c = true := fun c hc =>
    isIdentifierChar_of_isAsciiWord (isAsciiWord_of_isAsciiStart hc)
  cases h with
  | edge hx hy => rw [endsIdentifier_of_atLineEnd hx, endsIdentifier_of_atLineEnd hy]
  | word hx hy =>
    rw [not_endsIdentifier_of_word (headIs_imp (fun _ => isAsciiWord_of_isAsciiStart) hx),
      not_endsIdentifier_of_word (headIs_imp (fun _ => isAsciiWord_of_isAsciiStart) hy)]
  | @cons c xs ys h =>
    by_cases hc : c = ':'
    · -- a second colon is next in both or in neither
      subst hc
      by_cases hsecond : ∃ more, xs = ':' :: more
      · rcases hsecond with ⟨more, rfl⟩
        rcases h.exists_cons (by decide) (by decide) with ⟨more', rfl, hmore⟩
        rw [endsIdentifier_colons, endsIdentifier_colons,
          hmore.any_head? hword isIdentifierChar_lineBreak]
      · have hother : ∀ more, ys ≠ ':' :: more := by
          rintro more rfl
          rcases h.symm.exists_cons (by decide) (by decide) with ⟨more', hxs, -⟩
          exact hsecond ⟨more', hxs⟩
        rw [endsIdentifier_colon_of_not fun more hxs => hsecond ⟨more, hxs⟩,
          endsIdentifier_colon_of_not hother]
    · have hjoined := h.any_head? (fun _ => joins_of_isAsciiStart) (by decide +kernel)
      simp [endsIdentifier.eq_def, hjoined, hc]

/-- Whether a plain name starts depends on the characters back to the last word. -/
theorem startsIdentifier_congr {xs ys : Line} (h : LooksLike isAsciiWord xs ys) :
    startsIdentifier xs = startsIdentifier ys := by
  cases h with
  | edge hx hy => rw [startsIdentifier_of_atLineEnd hx, startsIdentifier_of_atLineEnd hy]
  | word hx hy => rw [not_startsIdentifier_of_word hx, not_startsIdentifier_of_word hy]
  | @cons c xs ys h =>
    have hjoined := h.any_head? (fun _ => isIdentifierChar_of_isAsciiWord)
      isIdentifierChar_lineBreak
    have hsigil := h.any_head? (fun _ hc => (not_mark_of_asciiWord (Or.inl hc)).1) (by decide)
    rw [startsIdentifier, startsIdentifier, hjoined, hsigil]

/-- The last character of a name is of a word. -/
theorem headIs_reverse_of_isAsciiName {w : Line} (h : isAsciiName w) :
    headIs isAsciiWord w.reverse := by
  cases w with
  | nil => cases h
  | cons c cs =>
    rw [isAsciiName, Bool.and_eq_true] at h
    have hinside : Inside [c] (cs ++ []) := ⟨c, [], h.1, Or.inl rfl⟩
    rcases inside_append hinside (by rw [List.append_nil]; exact h.2) with
      ⟨p, more, hp, hbefore | ⟨-, hstart⟩⟩
    · rw [List.reverse_cons, hbefore]
      exact hp
    · cases hstart

theorem continuesAscii_of_append {front rest : Line} (h : continuesAscii (front ++ rest)) :
    continuesAscii rest := by
  induction front with
  | nil => exact h
  | cons c front ih =>
    rw [List.cons_append, continuesAscii] at h
    split at h <;> exact ih (Bool.and_eq_true_iff.1 h).2

/-- A name does not end where it goes on. -/
theorem not_endsIdentifier_of_name {front rest : Line} (hname : isAsciiName (front ++ rest))
    (hfront : front ≠ []) (hrest : rest ≠ []) (after : Line) :
    endsIdentifier (rest ++ after) = false := by
  have hcontinues : continuesAscii rest := by
    cases front with
    | nil => exact absurd rfl hfront
    | cons c front =>
      rw [List.cons_append, isAsciiName, Bool.and_eq_true] at hname
      exact continuesAscii_of_append hname.2
  cases rest with
  | nil => exact absurd rfl hrest
  | cons c rest =>
    rw [continuesAscii] at hcontinues
    split at hcontinues
    · next hhyphen =>
      -- a letter or an underscore follows a hyphen
      subst hhyphen
      have hnot : isIdentifierChar '-' = false := by decide +kernel
      cases rest with
      | nil => cases hcontinues
      | cons d rest =>
        have hjoins := joins_of_isAsciiStart (Bool.and_eq_true_iff.1 hcontinues).1
        rcases Bool.or_eq_true_iff.1 hjoins with hletter | hunderscore
        · simp [endsIdentifier.eq_def, hnot, hletter]
        · simp [endsIdentifier.eq_def, hnot, hunderscore]
    · exact not_endsIdentifier_of_word (Bool.and_eq_true_iff.1 hcontinues).1

/-! ## Seats -/

/-- The characters before a name, the nearest first, and those behind it are such
that the name is found between them, as a plain one or with the sigil. -/
inductive Seat : Option Char → Line → Line → Prop where
  | plain {before after : Line} (hstarts : startsIdentifier before) (hends : endsIdentifier after) :
      Seat none before after
  | bare {sigil : Char} {before after : Line} (hends : endsIdentifier after) :
      Seat (some sigil) (sigil :: before) after
  | braced {sigil : Char} {before after : Line} (hends : endsIdentifier after) :
      Seat (some sigil) ('{' :: sigil :: before) ('}' :: after)
  | accessor {sigil twigil : Char} {before after : Line} (htwigil : isTwigil twigil)
      (hends : endsIdentifier after) : Seat (some sigil) (twigil :: sigil :: before) after

section
variable {sigil : Option Char} {before after : Line}

/-- Sigils, twigils and braces neither break lines nor are part of words. -/
theorem not_word_of_mark {c : Char} (h : isSigil c ∨ isTwigil c ∨ c = '{' ∨ c = '}') :
    (isAsciiWord c = false ∧ isAsciiStart c = false) ∧ c ≠ '\n' ∧ c ≠ '\r' := by
  simp only [isSigil, isTwigil, Bool.or_eq_true, beq_iff_eq] at h
  rcases h with ((rfl | rfl) | rfl) | (rfl | rfl) | rfl | rfl <;> decide

/-- Surroundings that are alike are seats alike. -/
theorem Seat.congr (hsigil : ∀ c ∈ sigil, isSigil c) {before' after' : Line}
    (hbefore : LooksLike isAsciiWord before before') (hafter : LooksLike isAsciiStart after after')
    (h : Seat sigil before after) : Seat sigil before' after' := by
  cases h with
  | plain hstarts hends =>
    rw [startsIdentifier_congr hbefore] at hstarts
    rw [endsIdentifier_congr hafter] at hends
    exact .plain hstarts hends
  | @bare c before after hends =>
    rcases not_word_of_mark (Or.inl (hsigil c rfl)) with ⟨hword, hbreak⟩
    rcases hbefore.exists_cons hword.1 hbreak with ⟨more, rfl, -⟩
    rw [endsIdentifier_congr hafter] at hends
    exact .bare hends
  | @braced c before after hends =>
    rcases not_word_of_mark (Or.inl (hsigil c rfl)) with ⟨hword, hbreak⟩
    rcases hbefore.exists_cons (by decide) (by decide) with ⟨more, rfl, hmore⟩
    rcases hmore.exists_cons hword.1 hbreak with ⟨more, rfl, -⟩
    rcases hafter.exists_cons (by decide) (by decide) with ⟨rest, rfl, hrest⟩
    rw [endsIdentifier_congr hrest] at hends
    exact .braced hends
  | @accessor c twigil before after htwigil hends =>
    rcases not_word_of_mark (Or.inl (hsigil c rfl)) with ⟨hword, hbreak⟩
    rcases not_word_of_mark (Or.inr (Or.inl htwigil)) with ⟨hword', hbreak'⟩
    rcases hbefore.exists_cons hword'.1 hbreak' with ⟨more, rfl, hmore⟩
    rcases hmore.exists_cons hword.1 hbreak with ⟨more, rfl, -⟩
    rw [endsIdentifier_congr hafter] at hends
    exact .accessor htwigil hends

/-- No seat is inside a name. -/
theorem not_seat_inside (hsigil : ∀ c ∈ sigil, isSigil c) {inner outer : Line}
    (hname : isAsciiName (inner ++ outer)) (hne : inner ≠ []) :
    ¬Seat sigil (inner.reverse ++ before) after := by
  have hmark : ∀ c rest, inner.reverse ++ before = c :: rest →
      isSigil c = false ∧ isTwigil c = false ∧ c ≠ '{' ∧ c ≠ '}' := by
    intro c rest hcons
    refine not_mark_of_asciiWord (isAsciiWord_of_mem_name hname c ?_)
    have hhead : (inner.reverse ++ before).head? = some c := by rw [hcons]; rfl
    rw [List.head?_append_of_ne_nil _ (by simpa using hne)] at hhead
    exact List.mem_append_left _ (List.mem_reverse.1 (List.mem_of_mem_head? hhead))
  intro h
  generalize hfront : inner.reverse ++ before = front at h
  cases h with
  | plain hstarts hends =>
    rw [← hfront, not_startsIdentifier_of_name hname hne] at hstarts
    cases hstarts
  | @bare c before after hends =>
    have hnot := (hmark _ _ hfront).1
    rw [hsigil c rfl] at hnot
    cases hnot
  | braced hends => exact absurd rfl (hmark _ _ hfront).2.2.1
  | accessor htwigil hends =>
    have hnot := (hmark _ _ hfront).2.1
    rw [htwigil] at hnot
    cases hnot

/-- A seat does not stand before the rest of a name. -/
theorem not_seat_of_name {front rest : Line} (hname : isAsciiName (front ++ rest))
    (hfront : front ≠ []) (hrest : rest ≠ []) : ¬Seat sigil before (rest ++ after) := by
  have hnot := not_endsIdentifier_of_name hname hfront hrest after
  intro h
  generalize hbehind : rest ++ after = behind at h hnot
  cases h with
  | plain hstarts hends => rw [hnot] at hends; cases hends
  | bare hends => rw [hnot] at hends; cases hends
  | accessor htwigil hends => rw [hnot] at hends; cases hends
  | @braced c before after hends =>
    cases rest with
    | nil => exact hrest rfl
    | cons d rest =>
      have hmem : d ∈ front ++ d :: rest := by simp
      have hmark := not_mark_of_asciiWord (isAsciiWord_of_mem_name hname d hmem)
      exact hmark.2.2.2 (List.cons.inj hbehind).1

/-- At one place only one name has a seat. -/
theorem eq_of_seats {x y rest rest' : Line} (hx : isAsciiName x) (hy : isAsciiName y)
    (happend : x ++ rest = y ++ rest') (h : Seat sigil before rest)
    (h' : Seat sigil before rest') : x = y := by
  rcases List.append_eq_append_iff.1 happend with ⟨more, rfl, rfl⟩ | ⟨more, rfl, rfl⟩
  · by_cases hmore : more = []
    · rw [hmore, List.append_nil]
    · exact absurd h (not_seat_of_name hy (ne_nil_of_isAsciiName hx) hmore)
  · by_cases hmore : more = []
    · rw [hmore, List.append_nil]
    · exact absurd h' (not_seat_of_name hx (ne_nil_of_isAsciiName hy) hmore)

end

/-! ## Seats in a text -/

section
variable {name : SymbolName}

/-- Where a spelling of a name stands alone, its base has a seat. -/
theorem exists_seat_of_spelling {sp : Spelling} (hsp : sp ∈ spellings name) {front back : Line}
    (hends : endsIdentifier back) (hstarts : name.hasSigil ∨ startsIdentifier front.reverse) :
    ∃ inner outer, front ++ (sp.text ++ back) = inner ++ (name.base ++ outer) ∧
      front ++ (sp.lead ++ sp.edited) = inner ++ name.base ∧
      Seat name.sigil inner.reverse outer := by
  cases hsigil : name.sigil with
  | none =>
    have hplain : ¬name.hasSigil := by simp [SymbolName.hasSigil, hsigil]
    rw [mem_spellings_plain hsigil] at hsp
    subst hsp
    refine ⟨front, back, by simp [Spelling.text, Spelling.plain], by simp [Spelling.plain], ?_⟩
    exact .plain (hstarts.resolve_left hplain) hends
  | some c =>
    rw [mem_spellings_variable hsigil] at hsp
    rcases hsp with ⟨-, rfl | rfl⟩ | ⟨twigil, htwigil, rfl⟩
    · refine ⟨front ++ [c], back, by simp [Spelling.text, Spelling.bare],
        by simp [Spelling.bare], ?_⟩
      rw [List.reverse_append]
      exact .bare hends
    · refine ⟨front ++ [c, '{'], '}' :: back, by simp [Spelling.text, Spelling.braced],
        by simp [Spelling.braced], ?_⟩
      rw [List.reverse_append]
      exact .braced hends
    · refine ⟨front ++ [c, twigil], back, by simp [Spelling.text, Spelling.accessor],
        by simp [Spelling.accessor], ?_⟩
      rw [List.reverse_append]
      exact .accessor htwigil hends

/-- At a seat of its base a spelling of a name without a twigil stands alone. -/
theorem exists_spelling_of_seat (htwigil : name.twigil = none) {before outer : Line}
    (h : Seat name.sigil before outer) :
    ∃ sp ∈ spellings name, ∃ front back,
      before.reverse ++ (name.base ++ outer) = front ++ (sp.text ++ back) ∧
      before.reverse ++ name.base = front ++ (sp.lead ++ sp.edited) ∧ endsIdentifier back ∧
      (name.hasSigil ∨ startsIdentifier front.reverse) := by
  generalize hsigil : name.sigil = sigil at h
  have hvariable : ∀ c, sigil = some c → name.hasSigil := by
    rintro c rfl
    simp [SymbolName.hasSigil, hsigil]
  cases h with
  | plain hstarts hends =>
    refine ⟨.plain name.base, (mem_spellings_plain hsigil).2 rfl, before.reverse, outer, ?_, ?_,
      hends, Or.inr ?_⟩
    · simp [Spelling.text, Spelling.plain]
    · simp [Spelling.plain]
    · rw [List.reverse_reverse]
      exact hstarts
  | @bare c before outer hends =>
    refine ⟨.bare c name.base, (mem_spellings_variable hsigil).2 (Or.inl ⟨htwigil, Or.inl rfl⟩),
      before.reverse, outer, ?_, ?_, hends, Or.inl (hvariable c rfl)⟩
    · simp [Spelling.text, Spelling.bare]
    · simp [Spelling.bare]
  | @braced c before outer hends =>
    refine ⟨.braced c name.base, (mem_spellings_variable hsigil).2 (Or.inl ⟨htwigil, Or.inr rfl⟩),
      before.reverse, outer, ?_, ?_, hends, Or.inl (hvariable c rfl)⟩
    · simp [Spelling.text, Spelling.braced]
    · simp [Spelling.braced]
  | @accessor c twigil before outer his hends =>
    refine ⟨.accessor c twigil name.base,
      (mem_spellings_variable hsigil).2 (Or.inr ⟨twigil, his, rfl⟩), before.reverse, outer, ?_, ?_,
      hends, Or.inl (hvariable c rfl)⟩
    · simp [Spelling.text, Spelling.accessor]
    · simp [Spelling.accessor]

variable {file : FileId} {text : String} (hsigil : ∀ c ∈ name.sigil, isSigil c)

include hsigil

/-- A seat on a line is one in the text. -/
theorem seat_line_iff {n : Nat} {above line below : Line}
    (h : LineBetween text n above line below) (inner outer : Line) :
    Seat name.sigil (above ++ inner).reverse (outer ++ below) ↔
      Seat name.sigil inner.reverse outer := by
  have hbefore : LooksLike isAsciiWord inner.reverse (above ++ inner).reverse := by
    rw [List.reverse_append]
    refine looksLike_append _ fun c hc => Or.inl (h.opens c ?_)
    rw [← List.head?_reverse]
    exact hc
  have hafter := looksLike_append (p := isAsciiStart) outer h.closes
  exact ⟨.congr hsigil hbefore.symm hafter.symm, .congr hsigil hbefore hafter⟩

/-- Where a name is used its base has a seat. -/
theorem exists_seat_of_isUse {o : Occurrence} (h : IsUse none name file text o) :
    ∃ front back, text.toList = front ++ (name.base ++ back) ∧
      Seat name.sigil front.reverse back ∧
      (LineIndex.ofText text).offset? o.edit.stop = some (byteLen (front ++ name.base)) := by
  rcases h with ⟨hsp, hline, hends, hstarts, -⟩
  rcases exists_lineBetween hline with ⟨above, below, hbetween⟩
  rcases exists_seat_of_spelling hsp hends hstarts with ⟨inner, outer, hsplit, hstop, hseat⟩
  refine ⟨above ++ inner, outer ++ below, ?_, ?_, ?_⟩
  · rw [hbetween.split, hsplit]
    simp
  · exact (seat_line_iff hsigil hbetween inner outer).2 hseat
  · rw [List.append_assoc, ← hstop]
    exact hbetween.offset?_eq _

variable (htwigil : name.twigil = none) (hname : isAsciiName name.base)

include htwigil hname

/-- At a seat of its base a name is used. -/
theorem exists_isUse_of_seat {front back : Line}
    (htext : text.toList = front ++ (name.base ++ back)) (h : Seat name.sigil front.reverse back)
    (file : FileId) :
    ∃ o, IsUse none name file text o ∧
      (LineIndex.ofText text).offset? o.edit.stop = some (byteLen (front ++ name.base)) := by
  have hpiece : ∀ c ∈ name.base, c ≠ '\n' ∧ c ≠ '\r' := by
    intro c hc
    constructor
    · rintro rfl
      exact absurd (isAsciiWord_of_mem_name hname _ hc) (by decide)
    · rintro rfl
      exact absurd (isAsciiWord_of_mem_name hname _ hc) (by decide)
  rcases exists_lineBetween_of_piece htext (ne_nil_of_isAsciiName hname) hpiece with
    ⟨n, above, inner, outer, below, rfl, rfl, hbetween⟩
  rw [seat_line_iff hsigil hbetween] at h
  rcases exists_spelling_of_seat htwigil h with
    ⟨sp, hsp, front, back, hsplit, hstop, hends, hstarts⟩
  rw [List.reverse_reverse] at hsplit hstop
  refine ⟨sp.occurrence file n front, .intro hsp ?_ hends hstarts (by simp [InCode]), ?_⟩
  · rw [hbetween.get, hsplit]
  · rw [List.append_assoc, hstop]
    exact hbetween.offset?_eq _

/-- The search finds a name exactly at the seats of its base. -/
theorem seat_iff_mem_occurrences {front back : Line}
    (htext : text.toList = front ++ (name.base ++ back)) (file : FileId) :
    Seat name.sigil front.reverse back ↔ ∃ o ∈ occurrences none name file text 0,
      (LineIndex.ofText text).offset? o.edit.stop = some (byteLen (front ++ name.base)) := by
  constructor
  · intro hseat
    rcases exists_isUse_of_seat hsigil htwigil hname htext hseat file with ⟨o, huse, hstop⟩
    exact ⟨o, (mem_occurrences_iff hsigil hname).2 ⟨Nat.zero_le _, huse⟩, hstop⟩
  · rintro ⟨o, ho, hstop⟩
    have huse := (isUse_of_mem_occurrences ho).2
    rcases exists_seat_of_isUse hsigil huse with ⟨front', back', htext', hseat, hstop'⟩
    -- both end at the same offset, so they are the same
    rw [hstop, Option.some.injEq] at hstop'
    rw [htext, ← List.append_assoc, ← List.append_assoc] at htext'
    rcases front_eq_of_byteLen htext' hstop' with ⟨hfront, rfl⟩
    rw [List.append_cancel_right hfront]
    exact hseat

end

end RakuAtlas.Query
