import Mathlib.Data.List.DropRight
import RakuAtlas.Declaration.Variable
import RakuAtlas.Proofs.Query.Identity
import RakuAtlas.Proofs.Text.Stops

/-!
# RakuAtlas.Proofs.Parameters.Signature — an empty hash in the text of a signature

The text of a signature is taken apart behind a word and blanks (`EndsInWord`), which is
where the default value of a parameter stands.

* `signatureParams_append`: what is listed in front of the end of a parameter and behind it
  is listed apart, for neither an empty hash, nor another default value, nor a name reaches
  from one to the other.
* `signatureParams_emptyDefault`, `signatureParams_beforeBody_emptyDefault`: an empty hash
  makes no difference to the parameters of a text, and none to those of a line that is cut at
  a body.
-/

namespace RakuAtlas

open Unicode (isBlank isWord)
open Text
open Lexical (headIs_stop joinedTail_stop)
open Query (IsSymbolChar not_isBlank_of_isSymbolChar)
open RakuAtlas.Symbol (isSigil isTwigil)

/-! ## Words -/

theorem ne_of_isWord {w c : Char} (hw : isWord w) (hc : ¬isWord c) : w ≠ c := by
  rintro rfl
  exact hc hw

theorem not_isBlank_of_isWord {w : Char} (hw : isWord w) : isBlank w = false :=
  Bool.eq_false_iff.2 (not_isBlank_of_isSymbolChar (.inl (.inl hw)))

theorem ne_of_isBlank {b c : Char} (hb : isBlank b) (hc : ¬isBlank c) : b ≠ c := by
  rintro rfl
  exact hc hb

/-- The line ends in a word, but for blanks behind it. -/
def EndsInWord (front : Line) : Prop :=
  ∃ inner w blanks, front = inner ++ w :: blanks ∧ isWord w ∧ ∀ c ∈ blanks, isBlank c

/-! ## Empty hashes -/

namespace Block

/-- An empty hash as the default value of a parameter. -/
def emptyDefault : Line := ['=', ' ', '\x7b', '\x7d']

/-- An empty hash does not go on at a word. -/
theorem emptyHashLen?_stop {w : Char} (hw : isWord w) (front back : Line) :
    emptyHashLen? (front ++ w :: back) = emptyHashLen? front := by
  have hblank := not_isBlank_of_isWord hw
  have hequals : w ≠ '=' := ne_of_isWord hw (by decide)
  have hopen : w ≠ '\x7b' := ne_of_isWord hw (by decide)
  have hclose : w ≠ '\x7d' := ne_of_isWord hw (by decide)
  unfold emptyHashLen?
  rw [afterChar?_stop hequals]
  cases afterChar? '=' front with
  | none => rfl
  | some rest =>
    simp only [Option.map_some, Option.bind_eq_bind, Option.bind_some, trimStart_stop hblank,
      afterChar?_stop hopen]
    cases afterChar? '\x7b' (trimStart rest) with
    | none => rfl
    | some inner =>
      simp only [Option.map_some, Option.bind_some, trimStart_stop hblank, afterChar?_stop hclose]
      cases afterChar? '\x7d' (trimStart inner) with
      | none => rfl
      | some rest => simp [Nat.add_sub_add_right]

theorem le_of_emptyHashLen? {cs : Line} {len : Nat} (h : emptyHashLen? cs = some len) :
    len ≤ cs.length := by
  simp only [emptyHashLen?, Option.bind_eq_bind, Option.bind_eq_some_iff] at h
  rcases h with ⟨-, -, -, -, rest, -, heq⟩
  cases heq
  exact Nat.sub_le ..

theorem emptyHashLen?_of_ne {c : Char} (hc : c ≠ '=') (cs : Line) :
    emptyHashLen? (c :: cs) = none := by
  simp [emptyHashLen?, afterChar?, hc.symm]

theorem dropEmptyHashes_blanks {blanks : Line} (h : ∀ c ∈ blanks, isBlank c) (back : Line) :
    dropEmptyHashes (blanks ++ back) = blanks ++ dropEmptyHashes back :=
  eraseHits_idle (fun b hb cs => emptyHashLen?_of_ne (ne_of_isBlank (h b hb) (by decide)) cs) back

theorem dropEmptyHashes_append {front : Line} (hfront : EndsInWord front) (back : Line) :
    dropEmptyHashes (front ++ back) = dropEmptyHashes front ++ dropEmptyHashes back := by
  rcases hfront with ⟨inner, w, blanks, rfl, hw, hblanks⟩
  have hword : ∀ cs, dropEmptyHashes (inner ++ [w] ++ cs) =
      dropEmptyHashes (inner ++ [w]) ++ dropEmptyHashes cs := by
    intro cs
    apply eraseHits_append
    intro rest hrest hne
    rcases List.suffix_concat_iff.1 hrest with rfl | ⟨inner', rfl, -⟩
    · contradiction
    · refine ⟨?_, fun len hlen => le_of_emptyHashLen? hlen⟩
      rw [← List.append_cons, emptyHashLen?_stop hw, emptyHashLen?_stop hw]
  have hnil : dropEmptyHashes (blanks ++ []) = blanks ++ [] := dropEmptyHashes_blanks hblanks []
  rw [List.append_nil] at hnil
  rw [List.append_cons, List.append_assoc, hword, dropEmptyHashes_blanks hblanks, hword, hnil,
    List.append_assoc]

theorem dropEmptyHashes_emptyDefault (back : Line) :
    dropEmptyHashes (emptyDefault ++ back) = dropEmptyHashes back := by
  have hlen : emptyHashLen? (emptyDefault ++ back) = some 4 := by
    have hblank : trimStart (' ' :: '\x7b' :: '\x7d' :: back) = '\x7b' :: '\x7d' :: back := rfl
    have hclose : trimStart ('\x7d' :: back) = '\x7d' :: back := rfl
    simp [emptyHashLen?, emptyDefault, afterChar?, hblank, hclose]
    omega
  rw [dropEmptyHashes, eraseHits, emptyDefault, List.cons_append, eraseHitsFrom]
  rw [emptyDefault, List.cons_append] at hlen
  rw [hlen]
  rfl

end Block

/-! ## Parameters -/

namespace Variable

/-- Whether the character goes on with a default value. -/
def isDefaultPart (c : Char) : Bool := c ≠ ',' && c ≠ ')'

/-- A default value is cut out up to a comma or a closing parenthesis. -/
theorem eraseHits_default (cs : Line) :
    eraseHits defaultLen? ('=' :: cs) = eraseHits defaultLen? (cs.dropWhile isDefaultPart) := by
  have hdrop : cs.drop (cs.takeWhile isDefaultPart).length = cs.dropWhile isDefaultPart := by
    have := @List.drop_left _ (cs.takeWhile isDefaultPart) (cs.dropWhile isDefaultPart)
    rwa [List.takeWhile_append_dropWhile] at this
  rw [← hdrop, eraseHits, eraseHitsFrom, defaultLen?]
  dsimp only
  rw [eraseHitsFrom_eq, Nat.add_sub_cancel_left]
  rfl

theorem defaultLen?_of_ne {c : Char} (hc : c ≠ '=') (cs : Line) : defaultLen? (c :: cs) = none := by
  unfold defaultLen?
  split
  · next heq => exact absurd (List.cons.inj heq).1 hc
  · rfl

/-- Default values are cut out of a text in two parts, where one that the first part leaves
open goes on in the second. -/
theorem exists_eraseHits_append (front : Line) :
    ∃ inside : Bool, ∀ back, eraseHits defaultLen? (front ++ back) =
      eraseHits defaultLen? front ++
        eraseHits defaultLen? (if inside then back.dropWhile isDefaultPart else back) := by
  induction hn : front.length using Nat.strong_induction_on generalizing front with
  | _ n ih =>
    cases front with
    | nil => exact ⟨false, fun back => rfl⟩
    | cons c more =>
      rw [List.length_cons] at hn
      by_cases hc : c = '='
      · subst hc
        have hshort := (List.dropWhile_sublist isDefaultPart (l := more)).length_le
        cases hrest : more.dropWhile isDefaultPart with
        | nil =>
          refine ⟨true, fun back => ?_⟩
          rw [List.cons_append, eraseHits_default, eraseHits_default, List.dropWhile_append, hrest]
          rfl
        | cons d rest =>
          rw [hrest] at hshort
          obtain ⟨inside, hmore⟩ := ih (d :: rest).length (by omega) (d :: rest) rfl
          refine ⟨inside, fun back => ?_⟩
          rw [List.cons_append, eraseHits_default, eraseHits_default, List.dropWhile_append, hrest]
          exact hmore back
      · obtain ⟨inside, hmore⟩ := ih more.length (by omega) more rfl
        refine ⟨inside, fun back => ?_⟩
        rw [List.cons_append, eraseHits_cons (defaultLen?_of_ne hc _), hmore,
          eraseHits_cons (defaultLen?_of_ne hc _), List.cons_append]

/-- What stands behind a twigil, if there is one. -/
def skipTwigil : Line → Line
  | c :: cs => if isTwigil c then cs else c :: cs
  | [] => []

theorem suffix_skipTwigil (cs : Line) : skipTwigil cs <:+ cs := by
  unfold skipTwigil
  split
  · split
    · exact List.suffix_cons ..
    · exact List.suffix_rfl
  · exact List.suffix_rfl

theorem skipTwigil_stop {x : Char} (hx : ¬isTwigil x) (front back : Line) :
    skipTwigil (front ++ x :: back) = skipTwigil front ++ x :: back := by
  cases front with
  | nil => simp [skipTwigil, hx]
  | cons c more =>
    by_cases hc : isTwigil c
    · simp [skipTwigil, hc]
    · simp [skipTwigil, hc]

theorem variableLen?_cons (sigil : Char) (cs : Line) :
    variableLen? (sigil :: cs) =
      if isSigil sigil && headIs isWord (skipTwigil cs) then
        some (1 + (cs.length - (skipTwigil cs).length) +
          joinedTail isWord isNameStart isWord (skipTwigil cs))
      else none := by
  by_cases hsigil : isSigil sigil
  · cases cs with
    | nil => simp [variableLen?, skipTwigil, headIs]
    | cons c more =>
      by_cases hc : isTwigil c
      · simp [variableLen?, skipTwigil, hsigil, hc]
      · simp [variableLen?, skipTwigil, hsigil, hc]
  · simp [variableLen?, hsigil]

theorem le_of_variableLen? {cs : Line} {len : Nat} (h : variableLen? cs = some len) :
    len ≤ cs.length := by
  cases cs with
  | nil => cases h
  | cons sigil cs =>
    rw [variableLen?_cons] at h
    split at h
    · cases h
      have hskip := (suffix_skipTwigil cs).length_le
      have hname := @joinedTail_le_length isWord isNameStart isWord (skipTwigil cs)
      rw [List.length_cons]
      omega
    · cases h

/-- A variable ends where no character of a symbol stands. -/
theorem variableLen?_stop {x : Char} (hx : ¬IsSymbolChar x) (sigil : Char) (front back : Line) :
    variableLen? (sigil :: front ++ x :: back) = variableLen? (sigil :: front) := by
  have hword : isWord x = false := Bool.eq_false_iff.2 fun h => hx (.inl (.inl h))
  have hstart : isNameStart x = false :=
    Bool.eq_false_iff.2 fun h => hx (.inl (.inl (isWord_of_isNameStart x h)))
  have htwigil : ¬isTwigil x := fun h => hx (.inr (.inr h))
  have hhyphen : x ≠ '-' := fun h => hx (.inl (.inr (.inl h)))
  have hcolon : x ≠ ':' := fun h => hx (.inl (.inr (.inr h)))
  rw [List.cons_append, variableLen?_cons, variableLen?_cons, skipTwigil_stop htwigil,
    headIs_stop hword, joinedTail_stop hword hstart hword hhyphen hcolon, List.length_append,
    List.length_append, Nat.add_sub_add_right]

/-- A text names the variables that its two parts name, if no name reaches from one to the
other. -/
theorem variablesIn_append {back : Line} (hback : ∀ c ∈ back.head?, ¬IsSymbolChar c)
    (front : Line) : variablesIn (front ++ back) = variablesIn front ++ variablesIn back := by
  have hwithin : Within variableLen? front back := by
    intro rest hrest hne
    refine ⟨?_, fun len hlen => le_of_variableLen? hlen⟩
    cases rest with
    | nil => contradiction
    | cons c more =>
      cases back with
      | nil => rw [List.append_nil]
      | cons x back => exact variableLen?_stop (hback x rfl) c more back
  rw [variablesIn, hitTexts_append hwithin, List.map_append]
  rfl

/-- Where no sigil stands, no variable is named. -/
theorem variablesIn_idle {front : Line} (h : ∀ c ∈ front, ¬isSigil c) (back : Line) :
    variablesIn (front ++ back) = variablesIn back := by
  have hidle : ∀ c ∈ front, ∀ cs, variableLen? (c :: cs) = none := by
    intro c hc cs
    simp [variableLen?, h c hc]
  rw [variablesIn, hitTexts_idle hidle]
  rfl

theorem not_isSigil_of_isBlank {b : Char} (hb : isBlank b) : ¬isSigil b :=
  fun hsigil => not_isBlank_of_isSymbolChar (.inr (.inl hsigil)) hb

theorem variablesIn_blanks {blanks : Line} (h : ∀ c ∈ blanks, isBlank c) (back : Line) :
    variablesIn (blanks ++ back) = variablesIn back :=
  variablesIn_idle (fun b hb => not_isSigil_of_isBlank (h b hb)) back

/-- Without the cut at a body, an empty hash makes no difference to the parameters that a text
lists. -/
theorem signatureParams_emptyDefault {front : Line} (hfront : EndsInWord front) (back : Line) :
    signatureParams (front ++ (Block.emptyDefault ++ back)) = signatureParams (front ++ back) := by
  rw [signatureParams, Block.dropEmptyHashes_append hfront, Block.dropEmptyHashes_emptyDefault,
    ← Block.dropEmptyHashes_append hfront]
  rfl

theorem eraseHits_blanks {blanks : Line} (h : ∀ c ∈ blanks, isBlank c) (back : Line) :
    eraseHits defaultLen? (blanks ++ back) = blanks ++ eraseHits defaultLen? back :=
  eraseHits_idle (fun b hb => defaultLen?_of_ne (ne_of_isBlank (h b hb) (by decide))) back

/-- Blanks in front of parameters do not matter. -/
theorem signatureParams_blanks {blanks : Line} (h : ∀ c ∈ blanks, isBlank c) (back : Line) :
    signatureParams (blanks ++ back) = signatureParams back := by
  rw [signatureParams, Block.dropEmptyHashes_blanks h, eraseHits_blanks h, variablesIn_blanks h]
  rfl

/-- What follows a parameter: nothing on its line, a comma or a closing parenthesis. -/
def AtParameterEnd (cs : Line) : Prop := ∀ c ∈ (trimStart cs).head?, c = ',' ∨ c = ')'

/-- Where a parameter ends, a default value ends with it, and so does a variable. -/
theorem variablesIn_eraseHits_append {blanks tail : Line} (hblanks : ∀ c ∈ blanks, isBlank c)
    (htail : ∀ c ∈ tail.head?, c = ',' ∨ c = ')') (front : Line) :
    variablesIn (eraseHits defaultLen? (front ++ (blanks ++ tail))) =
      variablesIn (eraseHits defaultLen? front) ++
        variablesIn (eraseHits defaultLen? (blanks ++ tail)) := by
  have hnone : ∀ c ∈ tail.head?, c ≠ '=' ∧ ¬isDefaultPart c ∧ ¬IsSymbolChar c := by
    intro c hc
    rcases htail c hc with rfl | rfl <;> decide
  have hhead : (eraseHits defaultLen? tail).head? = tail.head? :=
    head?_eraseHits fun c hc => defaultLen?_of_ne (hnone c hc).1
  obtain ⟨inside, happend⟩ := exists_eraseHits_append front
  rw [happend, eraseHits_blanks hblanks, variablesIn_blanks hblanks]
  cases inside with
  | true =>
    -- the blanks belong to the default value that the front leaves open
    have hrest : (blanks ++ tail).dropWhile isDefaultPart = tail := by
      have hpart : ∀ b ∈ blanks, isDefaultPart b := by
        intro b hb
        have hcomma : b ≠ ',' := ne_of_isBlank (hblanks b hb) (by decide)
        have hclose : b ≠ ')' := ne_of_isBlank (hblanks b hb) (by decide)
        simp [isDefaultPart, hcomma, hclose]
      rw [List.dropWhile_append_of_pos hpart]
      cases tail with
      | nil => rfl
      | cons c more => exact List.dropWhile_cons_of_neg (hnone c rfl).2.1
    rw [if_pos rfl, hrest, variablesIn_append]
    intro c hc
    rw [hhead] at hc
    exact (hnone c hc).2.2
  | false =>
    rw [if_neg Bool.false_ne_true, eraseHits_blanks hblanks, variablesIn_append,
      variablesIn_blanks hblanks]
    intro c hc
    cases blanks with
    | nil =>
      rw [List.nil_append, hhead] at hc
      exact (hnone c hc).2.2
    | cons b more =>
      cases hc
      exact fun h => not_isBlank_of_isSymbolChar h (hblanks _ (List.mem_cons_self ..))

/-- The parameters in front of the end of a parameter and behind it are listed apart. -/
theorem signatureParams_append {front back : Line} (hfront : EndsInWord front)
    (hback : AtParameterEnd back) :
    signatureParams (front ++ back) = signatureParams front ++ signatureParams back := by
  have hblanks : ∀ c ∈ back.takeWhile isBlank, isBlank c := fun c hc => List.mem_takeWhile_imp hc
  have hhead : (Block.dropEmptyHashes (trimStart back)).head? = (trimStart back).head? := by
    apply head?_eraseHits
    intro c hc
    apply Block.emptyHashLen?_of_ne
    rcases hback c hc with rfl | rfl <;> decide
  have hhashes : Block.dropEmptyHashes back =
      back.takeWhile isBlank ++ Block.dropEmptyHashes (trimStart back) := by
    rw [← Block.dropEmptyHashes_blanks hblanks, trimStart, List.takeWhile_append_dropWhile]
  rw [signatureParams, Block.dropEmptyHashes_append hfront, hhashes,
    variablesIn_eraseHits_append hblanks, ← hhashes]
  · rfl
  · rwa [hhead]

/-- Neither do blanks behind them. -/
theorem signatureParams_append_blanks {front blanks : Line} (hfront : EndsInWord front)
    (hblanks : ∀ c ∈ blanks, isBlank c) :
    signatureParams (front ++ blanks) = signatureParams front := by
  have hend : AtParameterEnd blanks := by
    intro c hc
    rw [trimStart, List.dropWhile_eq_nil_iff.2 hblanks] at hc
    cases hc
  have hnone : signatureParams (blanks ++ []) = [] := signatureParams_blanks hblanks []
  rw [List.append_nil] at hnone
  rw [signatureParams_append hfront hend, hnone, List.append_nil]

/-! ### On a line behind the header -/

theorem startsBody_of_ne {c : Char} (hopen : c ≠ '\x7b') (hclose : c ≠ ')') (cs : Line) :
    startsBody (c :: cs) = false := by
  rw [startsBody.eq_def]
  split
  · next heq => exact absurd (List.cons.inj heq).1 hopen
  · next heq => exact absurd (List.cons.inj heq).1 hclose
  · rfl

section
variable {w : Char} (hw : isWord w)
include hw

/-- What stands behind a word decides at most by its newlines whether a body starts in front
of the word. -/
theorem startsBody_congr {back back' : Line} (hline : isOneLine back = isOneLine back')
    (front : Line) : startsBody (front ++ w :: back) = startsBody (front ++ w :: back') := by
  have hlines : ∀ cs : Line, isOneLine (cs ++ w :: back) = isOneLine (cs ++ w :: back') := by
    intro cs
    rw [List.append_cons, isOneLine_append, hline, ← isOneLine_append, ← List.append_cons]
  cases front with
  | nil =>
    have hopen : w ≠ '\x7b' := ne_of_isWord hw (by decide)
    have hclose : w ≠ ')' := ne_of_isWord hw (by decide)
    rw [List.nil_append, List.nil_append, startsBody_of_ne hopen hclose,
      startsBody_of_ne hopen hclose]
  | cons c more =>
    by_cases hopen : c = '\x7b'
    · subst hopen
      cases more with
      | nil => exact congrArg (w ≠ '\x7d' && ·) hline
      | cons d rest => exact congrArg (d ≠ '\x7d' && ·) (hlines rest)
    · by_cases hclose : c = ')'
      · subst hclose
        exact hlines more
      · rw [List.cons_append, List.cons_append, startsBody_of_ne hopen hclose,
          startsBody_of_ne hopen hclose]

/-- A line is cut in front of a word or behind it, whatever stands there. -/
theorem beforeBody_stop {back back' : Line} (hline : isOneLine back = isOneLine back')
    (inner : Line) :
    beforeBody (inner ++ w :: back) = beforeBody (inner ++ w :: back') ∨
      beforeBody (inner ++ w :: back) = inner ++ w :: beforeBody back ∧
        beforeBody (inner ++ w :: back') = inner ++ w :: beforeBody back' := by
  have hblank := not_isBlank_of_isWord hw
  induction inner with
  | nil =>
    have hopen : w ≠ '\x7b' := ne_of_isWord hw (by decide)
    have hclose : w ≠ ')' := ne_of_isWord hw (by decide)
    have hhere : ∀ cs, beforeBody (w :: cs) = w :: beforeBody cs := by
      intro cs
      have htrim : trimStart (w :: cs) = w :: cs := trimStart_stop hblank [] cs
      rw [beforeBody, cutBefore, htrim, startsBody_of_ne hopen hclose]
      rfl
    exact .inr ⟨hhere back, hhere back'⟩
  | cons c more ih =>
    have hstart : startsBody (trimStart (c :: more ++ w :: back)) =
        startsBody (trimStart (c :: more ++ w :: back')) := by
      rw [trimStart_stop hblank, trimStart_stop hblank, startsBody_congr hw hline]
    simp only [beforeBody, List.cons_append, cutBefore] at hstart ih ⊢
    by_cases hcut : startsBody (trimStart (c :: (more ++ w :: back')))
    · left
      rw [hstart, if_pos hcut, if_pos hcut]
    · rw [hstart, if_neg hcut, if_neg hcut]
      rcases ih with hsame | ⟨hback, hback'⟩
      · exact .inl (congrArg (c :: ·) hsame)
      · exact .inr ⟨congrArg (c :: ·) hback, congrArg (c :: ·) hback'⟩

end

/-- Blanks are cut off with what they stand in front of. -/
theorem beforeBody_blanks {blanks : Line} (hblanks : ∀ c ∈ blanks, isBlank c) (back : Line) :
    beforeBody (blanks ++ back) = blanks ++ beforeBody back ∨
      beforeBody (blanks ++ back) = [] ∧ beforeBody back = [] := by
  have hempty : ∀ cs : Line, startsBody (trimStart cs) → beforeBody cs = [] := by
    intro cs hcut
    cases cs with
    | nil => rfl
    | cons c more => exact if_pos hcut
  by_cases hcut : startsBody (trimStart back)
  · have htrim : trimStart (blanks ++ back) = trimStart back :=
      List.dropWhile_append_of_pos hblanks
    exact .inr ⟨hempty _ (by rwa [htrim]), hempty _ hcut⟩
  · left
    induction blanks with
    | nil => rfl
    | cons b more ih =>
      have htrim : trimStart (b :: more ++ back) = trimStart back :=
        List.dropWhile_append_of_pos hblanks
      rw [List.forall_mem_cons] at hblanks
      rw [List.cons_append] at htrim
      rw [List.cons_append, beforeBody, cutBefore, htrim, if_neg hcut]
      exact congrArg (b :: ·) (ih hblanks.2)

/-- No body starts in the empty hash of a default value. -/
theorem beforeBody_emptyDefault (back : Line) :
    beforeBody (Block.emptyDefault ++ back) = Block.emptyDefault ++ beforeBody back := by
  rfl

/-- On a line that goes on with a signature, an empty hash behind a parameter makes no
difference to the parameters that are listed. -/
theorem signatureParams_beforeBody_emptyDefault {front : Line} (hfront : EndsInWord front)
    (back : Line) :
    signatureParams (beforeBody (front ++ (Block.emptyDefault ++ back))) =
      signatureParams (beforeBody (front ++ back)) := by
  rcases hfront with ⟨inner, w, blanks, rfl, hw, hblanks⟩
  have hline : isOneLine (blanks ++ (Block.emptyDefault ++ back)) = isOneLine (blanks ++ back) := by
    rw [isOneLine_append, isOneLine_append, isOneLine_append]
    rfl
  rw [List.append_assoc, List.append_assoc, List.cons_append, List.cons_append]
  rcases beforeBody_stop hw hline inner with hsame | ⟨hwith, hwithout⟩
  · rw [hsame]
  · have hfront : EndsInWord (inner ++ w :: blanks) := ⟨inner, w, blanks, rfl, hw, hblanks⟩
    have hword : EndsInWord (inner ++ [w]) := ⟨inner, w, [], rfl, hw, by simp⟩
    have hkeep : beforeBody (blanks ++ (Block.emptyDefault ++ back)) =
        blanks ++ (Block.emptyDefault ++ beforeBody back) := by
      rcases beforeBody_blanks hblanks (Block.emptyDefault ++ back) with hkeep | ⟨-, hnil⟩
      · rw [hkeep, beforeBody_emptyDefault]
      · rw [beforeBody_emptyDefault] at hnil
        cases hnil
    have hsame := signatureParams_emptyDefault hfront (beforeBody back)
    rw [List.append_assoc, List.append_assoc, List.cons_append, List.cons_append] at hsame
    rw [hwith, hwithout, hkeep, hsame]
    rcases beforeBody_blanks hblanks back with hback | ⟨hback, hnil⟩
    · rw [hback]
    · rw [hback, hnil, List.append_nil, List.append_cons,
        signatureParams_append_blanks hword hblanks]

end Variable

end RakuAtlas
