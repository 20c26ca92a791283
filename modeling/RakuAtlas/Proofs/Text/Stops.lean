import Mathlib.Data.List.Basic
import RakuAtlas.Proofs.Lexical.Lookahead
import RakuAtlas.Text.Search

/-!
# RakuAtlas.Proofs.Text.Stops — what stands behind a stop does not matter

The readers of a line take words, blanks and names from its front. At a character that
goes on with nothing they read they stop, and give back what stands from there on as it is
(`afterWord?_stop`, `afterOneOf?_stop`, `skipOneOf_stop`).

A search goes on behind what it finds. If no match in the front of a line reaches out of
it (`Within`), the line is searched in two parts (`eraseHits_append`, `hitTexts_append`).
-/

namespace RakuAtlas.Text

open Unicode (isBlank)
open Lexical (takeWhile_stop dropWhile_stop headIs_stop)

theorem isOneLine_append (front back : Line) :
    isOneLine (front ++ back) = (isOneLine front && isOneLine back) := by
  simp [isOneLine]

/-! ## What readers leave -/

theorem suffix_skipChar (c : Char) (cs : Line) : (afterChar? c cs).getD cs <:+ cs := by
  cases cs with
  | nil => exact List.suffix_rfl
  | cons d more =>
    by_cases hd : c = d
    · simp [afterChar?, hd, List.suffix_cons]
    · simp [afterChar?, hd]

theorem suffix_of_afterWord? {word : String} {cs rest : Line} (h : afterWord? word cs = some rest) :
    rest <:+ cs :=
  ⟨word.toList, List.append_eq_of_isPrefixOf?_eq_some h⟩

theorem suffix_of_afterBlanks? {cs rest : Line} (h : afterBlanks? cs = some rest) :
    rest <:+ cs := by
  unfold afterBlanks? at h
  split at h
  · cases h
    exact List.dropWhile_suffix _
  · cases h

theorem suffix_of_afterOneOf? {words : List String} {cs : Line} {found : String × Line}
    (h : afterOneOf? words cs = some found) : found.2 <:+ cs := by
  obtain ⟨word, -, hword⟩ := List.exists_of_findSome?_eq_some h
  simp only [Option.bind_eq_bind, Option.bind_eq_some_iff] at hword
  obtain ⟨behind, hbehind, rest, hrest, heq⟩ := hword
  cases heq
  exact (suffix_of_afterBlanks? hrest).trans (suffix_of_afterWord? hbehind)

theorem suffix_skipOneOf (words : List String) (cs : Line) : skipOneOf words cs <:+ cs := by
  unfold skipOneOf
  split
  · next found => exact suffix_of_afterOneOf? found
  · exact List.suffix_rfl

/-! ## Readers -/

section
variable {x : Char}

theorem trimStart_stop (hx : isBlank x = false) (front back : Line) :
    trimStart (front ++ x :: back) = trimStart front ++ x :: back :=
  dropWhile_stop hx front back

theorem afterChar?_stop {c : Char} (hx : x ≠ c) (front back : Line) :
    afterChar? c (front ++ x :: back) = (afterChar? c front).map (· ++ x :: back) := by
  cases front with
  | nil => simp [afterChar?, hx.symm]
  | cons d more =>
    by_cases hd : c = d
    · simp [afterChar?, hd]
    · simp [afterChar?, hd]

/-- A character that may be left out is read in front of the stop. -/
theorem skipChar_stop {c : Char} (hx : x ≠ c) (front back : Line) :
    (afterChar? c (front ++ x :: back)).getD (front ++ x :: back) =
      (afterChar? c front).getD front ++ x :: back := by
  rw [afterChar?_stop hx]
  cases afterChar? c front with
  | none => rfl
  | some rest => rfl

/-- A word is read in front of what goes on with none of its characters. -/
theorem afterWord?_append {word : String} {front back : Line}
    (h : ∀ c ∈ back.head?, c ∉ word.toList) :
    afterWord? word (front ++ back) = (afterWord? word front).map (· ++ back) := by
  unfold afterWord?
  generalize word.toList = cs at h
  induction cs generalizing front with
  | nil => simp [List.isPrefixOf?]
  | cons c more ih =>
    cases front with
    | nil =>
      cases back with
      | nil => rfl
      | cons d rest =>
        have hd : c ≠ d := by
          rintro rfl
          exact h c rfl (List.mem_cons_self ..)
        simp [List.isPrefixOf?, hd]
    | cons d rest =>
      have hmore : ∀ c ∈ back.head?, c ∉ more := by
        intro e he hmem
        exact h e he (List.mem_cons_of_mem c hmem)
      by_cases hd : c = d
      · subst hd
        simpa [List.isPrefixOf?] using ih hmore
      · simp [List.isPrefixOf?, hd]

theorem afterWord?_stop {word : String} (hx : x ∉ word.toList) (front back : Line) :
    afterWord? word (front ++ x :: back) = (afterWord? word front).map (· ++ x :: back) := by
  apply afterWord?_append
  intro c hc
  obtain rfl : x = c := by simpa using hc
  exact hx

theorem afterBlanks?_stop (hx : isBlank x = false) (front back : Line) :
    afterBlanks? (front ++ x :: back) = (afterBlanks? front).map (· ++ x :: back) := by
  cases front with
  | nil => simp [afterBlanks?, hx]
  | cons c more =>
    by_cases hc : isBlank c
    · have htrim := trimStart_stop hx (c :: more) back
      rw [List.cons_append] at htrim
      simp [afterBlanks?, hc, htrim]
    · simp [afterBlanks?, hc]

theorem afterOneOf?_stop {words : List String} (hx : isBlank x = false)
    (hwords : ∀ word ∈ words, x ∉ word.toList) (front back : Line) :
    afterOneOf? words (front ++ x :: back) =
      (afterOneOf? words front).map fun found => (found.1, found.2 ++ x :: back) := by
  unfold afterOneOf?
  induction words with
  | nil => rfl
  | cons word more ih =>
    rw [List.forall_mem_cons] at hwords
    rw [List.findSome?_cons, List.findSome?_cons, afterWord?_stop hwords.1, ih hwords.2]
    cases afterWord? word front with
    | none => rfl
    | some rest =>
      simp only [Option.map_some, Option.bind_eq_bind, Option.bind_some, afterBlanks?_stop hx]
      cases afterBlanks? rest with
      | none => rfl
      | some rest' => rfl

theorem skipOneOf_stop {words : List String} (hx : isBlank x = false)
    (hwords : ∀ word ∈ words, x ∉ word.toList) (front back : Line) :
    skipOneOf words (front ++ x :: back) = skipOneOf words front ++ x :: back := by
  unfold skipOneOf
  rw [afterOneOf?_stop hx hwords]
  cases afterOneOf? words front with
  | none => rfl
  | some found => rfl

theorem packageTail_le (cs : Line) : packageTail cs ≤ cs.length := by
  fun_induction packageTail cs with
  | case1 => exact Nat.le_refl 0
  | case2 c cs hc ih =>
    rw [List.length_cons]
    omega
  | case3 c hc d rest hcolons ih =>
    rw [List.length_cons, List.length_cons]
    omega
  | case4 => exact Nat.zero_le _
  | case5 => exact Nat.zero_le _

/-- The name of a package ends where a character neither belongs to it nor is a colon. -/
theorem packageTail_stop (hx : isNamePart x = false) (hcolon : x ≠ ':') (front back : Line) :
    packageTail (front ++ x :: back) = packageTail front := by
  fun_induction packageTail front with
  | case1 => cases back <;> simp [packageTail, hx, hcolon]
  | case2 c cs hc ih =>
    rw [List.cons_append, packageTail.eq_def]
    simp only [if_pos hc, ih]
  | case3 c hc d rest hcolons ih =>
    rw [List.cons_append, List.cons_append, packageTail.eq_def]
    simp only [if_neg hc, if_pos hcolons, ih]
  | case4 c hc d rest hcolons =>
    rw [List.cons_append, List.cons_append, packageTail.eq_def]
    simp only [if_neg hc, if_neg hcolons]
  | case5 c hc =>
    rw [List.cons_append, packageTail.eq_def]
    simp [hc, hcolon]

end

/-- A run of characters ends where one of another kind follows. -/
theorem takeWhile_tail {p : Char → Bool} {tail : Line} (h : ∀ c ∈ tail.head?, p c = false)
    (front : Line) : (front ++ tail).takeWhile p = front.takeWhile p := by
  cases tail with
  | nil => rw [List.append_nil]
  | cons c more => exact takeWhile_stop (h c rfl) front more

theorem dropWhile_tail {p : Char → Bool} {tail : Line} (h : ∀ c ∈ tail.head?, p c = false)
    (front : Line) : (front ++ tail).dropWhile p = front.dropWhile p ++ tail := by
  cases tail with
  | nil => rw [List.append_nil, List.append_nil]
  | cons c more => exact dropWhile_stop (h c rfl) front more

/-! ## Searches -/

section
variable {len? : Line → Option Nat}

/-- Characters that are still to be dropped are dropped. -/
theorem eraseHitsFrom_eq (skip : Nat) (cs : Line) :
    eraseHitsFrom len? skip cs = eraseHits len? (cs.drop skip) := by
  induction cs generalizing skip with
  | nil => rw [List.drop_nil, eraseHits, eraseHitsFrom, eraseHitsFrom]
  | cons c more ih =>
    cases skip with
    | zero => rfl
    | succ k => exact ih k

/-- What is found in the front is found there without what stands behind, and does not
reach out of it. -/
def Within (len? : Line → Option Nat) (front back : Line) : Prop :=
  ∀ rest, rest <:+ front → rest ≠ [] →
    len? (rest ++ back) = len? rest ∧ ∀ len ∈ len? rest, len ≤ rest.length

theorem Within.tail {c : Char} {front back : Line} (h : Within len? (c :: front) back) :
    Within len? front back :=
  fun rest hrest => h rest (hrest.trans (List.suffix_cons c front))

theorem eraseHitsFrom_append {front back : Line} {skip : Nat} (h : Within len? front back)
    (hskip : skip ≤ front.length) :
    eraseHitsFrom len? skip (front ++ back) =
      eraseHitsFrom len? skip front ++ eraseHits len? back := by
  induction front generalizing skip with
  | nil =>
    obtain rfl : skip = 0 := Nat.le_zero.1 hskip
    rfl
  | cons c more ih =>
    rw [List.length_cons] at hskip
    cases skip with
    | succ k =>
      rw [List.cons_append, eraseHitsFrom, eraseHitsFrom, ih h.tail (by omega)]
    | zero =>
      obtain ⟨hsame, hle⟩ := h (c :: more) List.suffix_rfl (List.cons_ne_nil c more)
      rw [List.cons_append] at hsame
      rw [List.cons_append, eraseHitsFrom, eraseHitsFrom, hsame]
      cases hlen : len? (c :: more) with
      | none => exact congrArg _ (ih h.tail (Nat.zero_le _))
      | some len =>
        have := hle len hlen
        rw [List.length_cons] at this
        exact ih h.tail (by omega)

/-- A line is cleared of its matches in two parts, if none reaches from one to the other. -/
theorem eraseHits_append {front back : Line} (h : Within len? front back) :
    eraseHits len? (front ++ back) = eraseHits len? front ++ eraseHits len? back :=
  eraseHitsFrom_append h (Nat.zero_le _)

/-- The texts of matches do not depend on what was passed. -/
theorem map_text_hitsFrom {α : Type} {find : Line → Option (Nat × α)} {skip : Nat}
    (before before' cs : Line) :
    (hitsFrom find skip before cs).map Hit.text = (hitsFrom find skip before' cs).map Hit.text := by
  induction cs generalizing skip before before' with
  | nil => rfl
  | cons c more ih =>
    cases skip with
    | succ k =>
      rw [hitsFrom, hitsFrom]
      exact ih _ _
    | zero =>
      rw [hitsFrom, hitsFrom]
      cases find (c :: more) with
      | none => exact ih _ _
      | some found => exact congrArg ((c :: more).take found.1 :: ·) (ih _ _)

theorem map_text_hitsFrom_append {front back before : Line} {skip : Nat}
    (h : Within len? front back) (hskip : skip ≤ front.length) :
    (hitsFrom (fun cs => (len? cs).map (·, ())) skip before (front ++ back)).map Hit.text =
      (hitsFrom (fun cs => (len? cs).map (·, ())) skip before front).map Hit.text ++
        hitTexts len? back := by
  induction front generalizing skip before with
  | nil =>
    obtain rfl : skip = 0 := Nat.le_zero.1 hskip
    exact map_text_hitsFrom before [] back
  | cons c more ih =>
    rw [List.length_cons] at hskip
    cases skip with
    | succ k =>
      rw [List.cons_append, hitsFrom, hitsFrom]
      exact ih h.tail (by omega)
    | zero =>
      obtain ⟨hsame, hle⟩ := h (c :: more) List.suffix_rfl (List.cons_ne_nil c more)
      rw [List.cons_append] at hsame
      rw [List.cons_append, hitsFrom, hitsFrom]
      simp only [hsame]
      cases hlen : len? (c :: more) with
      | none => exact ih h.tail (Nat.zero_le _)
      | some len =>
        have hin := hle len hlen
        have hcut : (c :: (more ++ back)).take len = (c :: more).take len :=
          List.take_append_of_le_length hin
        rw [List.length_cons] at hin
        simp only [Option.map_some, List.map_cons, hcut]
        exact congrArg _ (ih h.tail (by omega))

/-- So are the texts of matches listed. -/
theorem hitTexts_append {front back : Line} (h : Within len? front back) :
    hitTexts len? (front ++ back) = hitTexts len? front ++ hitTexts len? back :=
  map_text_hitsFrom_append h (Nat.zero_le _)

/-- A character at which no match starts stays. -/
theorem eraseHits_cons {c : Char} {cs : Line} (h : len? (c :: cs) = none) :
    eraseHits len? (c :: cs) = c :: eraseHits len? cs := by
  rw [eraseHits, eraseHitsFrom, h]
  rfl

theorem head?_eraseHits {cs : Line} (h : ∀ c ∈ cs.head?, ∀ more, len? (c :: more) = none) :
    (eraseHits len? cs).head? = cs.head? := by
  cases cs with
  | nil => rfl
  | cons c more => rw [eraseHits_cons (h c rfl more), List.head?_cons, List.head?_cons]

section
variable {front : Line} (h : ∀ c ∈ front, ∀ cs, len? (c :: cs) = none)
include h

/-- Where no match starts, nothing is cut out, -/
theorem eraseHits_idle (back : Line) :
    eraseHits len? (front ++ back) = front ++ eraseHits len? back := by
  induction front with
  | nil => rfl
  | cons c more ih =>
    rw [List.forall_mem_cons] at h
    rw [List.cons_append, eraseHits_cons (h.1 _), ih h.2, List.cons_append]

/-- and nothing is listed. -/
theorem hitTexts_idle (back : Line) : hitTexts len? (front ++ back) = hitTexts len? back := by
  induction front with
  | nil => rfl
  | cons c more ih =>
    rw [List.forall_mem_cons] at h
    rw [List.cons_append, hitTexts, hits, hitsFrom, h.1]
    exact (map_text_hitsFrom [c] [] (more ++ back)).trans (ih h.2)

end

/-- Two lines have the same first answer if they do behind a character and no place up to it
tells them apart. -/
theorem firstAt?_stop {α : Type} {find : Line → Option α} {x : Char} {back back' : Line}
    (h : ∀ front, find (front ++ x :: back) = find (front ++ x :: back'))
    (hback : firstAt? find back = firstAt? find back') (front : Line) :
    firstAt? find (front ++ x :: back) = firstAt? find (front ++ x :: back') := by
  induction front with
  | nil =>
    have hhere := h []
    rw [List.nil_append, List.nil_append] at hhere
    rw [List.nil_append, List.nil_append, firstAt?, firstAt?, hhere, hback]
  | cons c more ih =>
    have hhere := h (c :: more)
    rw [List.cons_append, List.cons_append] at hhere
    rw [List.cons_append, List.cons_append, firstAt?, firstAt?, hhere, ih]

/-- Where nothing is found, the search goes on behind. -/
theorem firstAt?_idle {α : Type} {find : Line → Option α} {front : Line}
    (h : ∀ c ∈ front, ∀ cs, find (c :: cs) = none) (back : Line) :
    firstAt? find (front ++ back) = firstAt? find back := by
  induction front with
  | nil => rfl
  | cons c more ih =>
    rw [List.forall_mem_cons] at h
    rw [List.cons_append, firstAt?, h.1, Option.none_or, ih h.2]

end

end RakuAtlas.Text
